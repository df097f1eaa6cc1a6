import QuantumRelay.Proofs.Engine.Outcome
import QuantumRelay.Proofs.Outcome.Counts

/-!
# The shots behind the counts

A run is made of shots, each starting with the draws that the one before has left (`shots`), and its
counts are what counting the bits of these shots gives (`simulate_eq_ok`). Every shot ends with as many
bits of a circuit as its request says (`widths_of_shotsOf`).
-/

namespace QuantumRelay

variable {σ R : Type}

/-! ### Outcomes of a circuit -/

namespace Engine

def outcomesAt (place : Nat) (ss : List (Shot σ R)) : List (List Bool) :=
  ss.filterMap (·.clbits[place]?)

theorem outcomesAt_cons {place : Nat} {s : Shot σ R} {bits : List Bool}
    (h : s.clbits[place]? = some bits) (rest : List (Shot σ R)) :
    outcomesAt place (s :: rest) = bits :: outcomesAt place rest := by
  rw [outcomesAt, List.filterMap_cons, h]
  rfl

theorem length_outcomesAt {place : Nat} {ss : List (Shot σ R)}
    (h : ∀ s ∈ ss, place < s.clbits.length) : (outcomesAt place ss).length = ss.length := by
  induction ss with
  | nil => rfl
  | cons s rest ih =>
    obtain ⟨hs, hrest⟩ := List.forall_mem_cons.1 h
    rw [outcomesAt_cons (List.getElem?_eq_getElem hs), List.length_cons, List.length_cons, ih hrest]

theorem count_outcomesAt (place : Nat) (ss : List (Shot σ R)) (bits : List Bool) :
    (outcomesAt place ss).count bits = ss.countP fun s => s.clbits[place]? = some bits := by
  rw [outcomesAt, List.count_filterMap]
  apply List.countP_congr
  intro s _
  rw [beq_iff_eq, decide_eq_true_eq]

/-- Count the outcomes of one shot, in addition to what has been counted. -/
def tallied (counts : List Counts) (s : Shot σ R) : List Counts :=
  counts.zipWith (fun c bits => c.plus (OutcomeKey.packHex bits) 1) s.clbits

theorem getElem?_foldl_tallied {place : Nat} {ss : List (Shot σ R)} {counts : List Counts}
    {c : Counts} (hc : counts[place]? = some c) (h : ∀ s ∈ ss, place < s.clbits.length) :
    (ss.foldl tallied counts)[place]? =
      some (c.plusAll ((outcomesAt place ss).map fun bits => (OutcomeKey.packHex bits, 1))) := by
  induction ss generalizing counts c with
  | nil => exact hc
  | cons s rest ih =>
    obtain ⟨hs, hrest⟩ := List.forall_mem_cons.1 h
    have hbits : s.clbits[place]? = some s.clbits[place] := List.getElem?_eq_getElem hs
    have hnext : (tallied counts s)[place]? =
        some (c.plus (OutcomeKey.packHex s.clbits[place]) 1) := by
      rw [tallied, List.getElem?_zipWith, hc, hbits]
    rw [List.foldl_cons, ih hnext hrest, outcomesAt_cons hbits]
    rfl

variable [Scalar R] [DrawSource σ]

/-! ### The shots of a run -/

/-- The shots of a run, in turn, each with the draws that the one before has left. -/
def shots (l : Layout R) : Nat → σ → Except SimulationError (List (Shot σ R))
  | 0, _ => .ok []
  | n + 1, source => do
    let s ← runShot l source
    pure (s :: (← shots l n s.source))

/-- The shots of a group with draws from `source`. -/
def shotsOf (R : Type) [Scalar R] (maxQubits : Nat) (source : σ) (group : List RunRequest)
    (config : RunConfig) : Except SimulationError (List (Shot σ R)) := do
  shots (← Layout.ofGroup maxQubits group) config.shots.toNat source

theorem shots_succ_eq_ok {l : Layout R} {n : Nat} {source : σ} {ss : List (Shot σ R)} :
    shots l (n + 1) source = .ok ss ↔
      ∃ s rest, runShot l source = .ok s ∧ shots l n s.source = .ok rest ∧ ss = s :: rest := by
  rw [shots]
  constructor
  · intro h
    obtain ⟨s, hs, h⟩ := bind_eq_ok.1 h
    obtain ⟨rest, hrest, h⟩ := bind_eq_ok.1 h
    exact ⟨s, rest, hs, hrest, (Except.ok.inj h).symm⟩
  · rintro ⟨s, rest, hs, hrest, rfl⟩
    exact bind_eq_ok.2 ⟨s, hs, bind_eq_ok.2 ⟨rest, hrest, rfl⟩⟩

theorem length_shots {l : Layout R} {n : Nat} {source : σ} {ss : List (Shot σ R)}
    (h : shots l n source = .ok ss) : ss.length = n := by
  induction n generalizing source ss with
  | zero =>
    obtain rfl := Except.ok.inj h
    rfl
  | succ n ih =>
    obtain ⟨s, rest, -, hrest, rfl⟩ := shots_succ_eq_ok.1 h
    rw [List.length_cons, ih hrest]

theorem widths_of_shots {l : Layout R} {n : Nat} {source : σ} {ss : List (Shot σ R)}
    (h : shots l n source = .ok ss) : ∀ s ∈ ss, s.widths = l.members.map (·.numClbits) := by
  induction n generalizing source ss with
  | zero =>
    obtain rfl := Except.ok.inj h
    intro s hs
    cases hs
  | succ n ih =>
    obtain ⟨s, rest, hs, hrest, rfl⟩ := shots_succ_eq_ok.1 h
    exact List.forall_mem_cons.2 ⟨widths_runShot hs, ih hrest⟩

theorem numClbits_of_place {ids : List String} {offset : Nat} {rs : List RunRequest}
    {members : List (Member R)} (h : Layout.place ids offset rs = .ok members) :
    members.map (·.numClbits) = rs.map (·.numClbits.toNat) := by
  induction rs generalizing offset members with
  | nil =>
    obtain rfl := Except.ok.inj h
    rfl
  | cons r rest ih =>
    rw [Layout.place] at h
    obtain ⟨tasks, -, h⟩ := bind_eq_ok.1 h
    obtain ⟨others, hothers, h⟩ := bind_eq_ok.1 h
    obtain rfl := Except.ok.inj h
    rw [List.map_cons, List.map_cons, ih hothers]

theorem widths_of_shotsOf {maxQubits : Nat} {source : σ} {group : List RunRequest}
    {config : RunConfig} {ss : List (Shot σ R)}
    (h : shotsOf R maxQubits source group config = .ok ss) :
    ss.length = config.shots.toNat ∧ ∀ s ∈ ss, s.widths = group.map (·.numClbits.toNat) := by
  obtain ⟨l, hl, h⟩ := bind_eq_ok.1 h
  obtain ⟨-, -, -, members, hplace, rfl⟩ := Layout.ofGroup_eq_ok.1 hl
  rw [← numClbits_of_place hplace]
  exact ⟨length_shots h, widths_of_shots h⟩

/-! ### Counting shots -/

theorem runShots_eq (l : Layout R) (n : Nat) (source : σ) (counts : List Counts) :
    runShots l n source counts = (shots l n source).map (·.foldl tallied counts) := by
  induction n generalizing source counts with
  | zero => rfl
  | succ n ih =>
    rw [runShots, shots]
    cases runShot l source with
    | error e => rfl
    | ok s =>
      show runShots l n s.source (tallied counts s) = _
      rw [ih]
      cases hrest : shots l n s.source with
      | error e => simp [bind, Except.bind, Except.map, hrest]
      | ok rest => simp [bind, Except.bind, Except.map, pure, Except.pure, hrest]

/-- The counts of a run are those of its shots. -/
theorem simulate_eq_ok {maxQubits : Nat} {source : σ} {group : List RunRequest}
    {config : RunConfig} {counts : List Counts} :
    simulate R maxQubits source group config = .ok counts ↔
      (config.method = .automatic ∨ config.method = .statevector) ∧
        ∃ ss, shotsOf R maxQubits source group config = .ok ss ∧
          ss.foldl tallied (group.map fun _ => {}) = counts := by
  unfold simulate
  by_cases hmethod : config.method = .automatic ∨ config.method = .statevector
  · rw [if_pos (by simpa using hmethod)]
    constructor
    · intro h
      obtain ⟨l, hl, h⟩ := bind_eq_ok.1 h
      rw [runShots_eq] at h
      obtain ⟨ss, hss, hcounts⟩ := map_eq_ok.1 h
      exact ⟨hmethod, ss, bind_eq_ok.2 ⟨l, hl, hss⟩, hcounts⟩
    · rintro ⟨-, ss, hss, hcounts⟩
      obtain ⟨l, hl, hss⟩ := bind_eq_ok.1 hss
      refine bind_eq_ok.2 ⟨l, hl, ?_⟩
      rw [runShots_eq]
      exact map_eq_ok.2 ⟨ss, hss, hcounts⟩
  · rw [if_neg (by simpa using hmethod)]
    constructor
    · intro h
      cases h
    · rintro ⟨h, -⟩
      exact absurd h hmethod

theorem counts_of_shots {maxQubits : Nat} {source : σ} {group : List RunRequest}
    {config : RunConfig} {ss : List (Shot σ R)} {place : Nat} {r : RunRequest}
    (h : shotsOf R maxQubits source group config = .ok ss) (hr : group[place]? = some r) :
    (ss.foldl tallied (group.map fun _ => {}))[place]? =
        some (.tally ((outcomesAt place ss).map OutcomeKey.packHex)) ∧
      (outcomesAt place ss).length = config.shots.toNat ∧
      ∀ bits ∈ outcomesAt place ss, bits.length = r.numClbits.toNat := by
  obtain ⟨hlength, hwidths⟩ := widths_of_shotsOf h
  have hwidth : ∀ s ∈ ss, ∃ bits, s.clbits[place]? = some bits ∧ bits.length = r.numClbits.toNat := by
    intro s hs
    have hplace := congrArg (·[place]?) (hwidths s hs)
    simp only [Shot.widths, List.getElem?_map, hr, Option.map_some] at hplace
    exact Option.map_eq_some_iff.1 hplace
  have hpresent : ∀ s ∈ ss, place < s.clbits.length := by
    intro s hs
    obtain ⟨bits, hbits, -⟩ := hwidth s hs
    exact (List.getElem?_eq_some_iff.1 hbits).1
  refine ⟨?_, ?_, ?_⟩
  · rw [getElem?_foldl_tallied (by rw [List.getElem?_map, hr]; rfl) hpresent, Counts.tally,
      List.map_map]
    rfl
  · rw [length_outcomesAt hpresent, hlength]
  · intro bits hbits
    obtain ⟨s, hs, hsbits⟩ := List.mem_filterMap.1 hbits
    obtain ⟨bits', hbits', hlen⟩ := hwidth s hs
    rwa [Option.some.inj (hsbits.symm.trans hbits')]

end Engine

end QuantumRelay
