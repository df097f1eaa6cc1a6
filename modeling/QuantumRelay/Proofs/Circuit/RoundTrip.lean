import QuantumRelay.Proofs.Circuit.Document
import QuantumRelay.Proofs.Circuit.Rebuilding

/-!
# Circuits through text

Every circuit that can be built has a text, and the text gives the circuit back if and only if all
entries of its matrices are finite (`built_roundTrips_iff`). Nothing else can go wrong: parameters are
checked to be finite when an instruction is taken, entries are not.
-/

namespace QuantumRelay.Circuit

variable {c : Circuit}

/-- Whether a circuit comes back from the text of its snapshot. -/
def RoundTrips (c : Circuit) : Prop :=
  ∃ s, Snapshot.read c.snapshot.text = .ok s ∧ s = c.snapshot ∧ ofSnapshot s = .ok c

def finiteEntries (c : Circuit) : Bool :=
  c.instructions.all fun i => i.matrix.all fun m => m.all fun row => row.all fun z =>
    z.re.isFinite && z.im.isFinite

namespace WellFormed

theorem isFinite_iff (h : WellFormed c) :
    (∀ i ∈ c.instructions, i.IsFinite) ↔ c.finiteEntries = true := by
  simp only [finiteEntries, List.all_eq_true, Option.all_eq_true, Bool.and_eq_true]
  constructor
  · intro hfinite i hi
    exact (hfinite i hi).matrix
  · intro hfinite i hi
    exact ⟨(h.takes i hi).params_finite, hfinite i hi⟩

/-- The text of a well-formed circuit is read as its snapshot or refused. -/
theorem read_text (h : WellFormed c) : Snapshot.read c.snapshot.text =
    if c.finiteEntries then .ok c.snapshot else .error .unreadable := by
  obtain ⟨hread, hrefused⟩ := c.snapshot.reads_text
  by_cases hfinite : c.finiteEntries = true
  · rw [if_pos hfinite, Snapshot.read, hread (h.isFinite_iff.2 hfinite)]
    exact normalized_snapshot h
  · rw [if_neg hfinite, Snapshot.read, hrefused fun hall => hfinite (h.isFinite_iff.1 hall)]

theorem roundTrips_iff (h : WellFormed c) : c.RoundTrips ↔ c.finiteEntries = true := by
  unfold RoundTrips
  rw [h.read_text]
  cases c.finiteEntries with
  | true => exact ⟨fun _ => rfl, fun _ => ⟨_, rfl, rfl, h.ofSnapshot_snapshot⟩⟩
  | false =>
    constructor
    · rintro ⟨_, hread, -⟩
      cases hread
    · rintro ⟨⟩

end WellFormed

/-- Every circuit that can be built comes back from its text, unless an entry of a matrix is not
finite. With such an entry, the text is refused. -/
theorem built_roundTrips_iff (unique id : String) (numQubits numClbits : UInt32)
    (ops : List Operation) :
    ((built unique id numQubits numClbits ops).RoundTrips ↔
      (built unique id numQubits numClbits ops).finiteEntries = true) ∧
    Snapshot.read (built unique id numQubits numClbits ops).snapshot.text =
      if (built unique id numQubits numClbits ops).finiteEntries then
        .ok (built unique id numQubits numClbits ops).snapshot
      else .error .unreadable :=
  ⟨(wellFormed_built ..).roundTrips_iff, (wellFormed_built ..).read_text⟩

/-- A circuit that multiplies an amplitude of its qubit by a number and turns the qubit by an angle. -/
def scaled (x angle : Float) : Circuit :=
  built "" "scaled" 1 0 [.unitary [[⟨x, 0⟩, 0], [0, 1]] [0], .gate "rx" [0] [angle]]

/-- With finite numbers it comes back. -/
theorem scaled_roundTrips :
    (scaled (-0.1) 3e300).instructions.length = 2 ∧ (scaled (-0.1) 3e300).RoundTrips :=
  ⟨by decide +kernel, (built_roundTrips_iff ..).1.2 (by decide +kernel)⟩

/-- A number that is not finite is taken as an entry, though not as an angle, and then the text is
refused. -/
theorem unbounded_refused :
    (scaled (Float.ofBits 0x7ff0000000000000) 0.5).instructions.length = 2 ∧
      (scaled 0.5 (Float.ofBits 0x7ff0000000000000)).instructions.length = 1 ∧
      ¬(scaled (Float.ofBits 0x7ff0000000000000) 0.5).RoundTrips ∧
      Snapshot.read (scaled (Float.ofBits 0x7ff0000000000000) 0.5).snapshot.text =
        .error .unreadable := by
  have hbuilt : WellFormed (scaled (Float.ofBits 0x7ff0000000000000) 0.5) := wellFormed_built ..
  have hentries : (scaled (Float.ofBits 0x7ff0000000000000) 0.5).finiteEntries = false := rfl
  refine ⟨rfl, rfl, ?_, ?_⟩
  · rw [hbuilt.roundTrips_iff, hentries]
    decide
  · rw [hbuilt.read_text, hentries]
    rfl

end QuantumRelay.Circuit
