import QuantumRelay.Proofs.Circuit.Registers
import QuantumRelay.Proofs.Circuit.Validation

/-!
# What a snapshot that describes a circuit is

A circuit takes only valid instructions, and all that they change of it is told by `Circuit.extended`
(`addInstructions_eq_ok`). So a snapshot describes a circuit if and only if its registers tile the
indices, it has an id and all that it lists are valid (`ofSnapshot_eq_ok`); the snapshot of that circuit
differs from it in the two flags at most (`normalized_eq_ok`).
-/

namespace QuantumRelay

def Instruction.relays (kind : RelayKind) (i : Instruction) : Bool :=
  i.relay.map (·.kind) == some kind

namespace Circuit

/-- An instruction that a circuit of these sizes takes. -/
def Takes (numQubits numClbits : UInt32) (id : String) (i : Instruction) : Prop :=
  ∃ spec, i.validate numQubits numClbits id = .ok spec

def extended (c : Circuit) (is : List Instruction) : Circuit :=
  { c with
    instructions := c.instructions ++ is
    isParametric := c.isParametric || is.any (·.isParametric)
    hasClassicalRelay := c.hasClassicalRelay || is.any (·.relays .classical)
    hasQuantumRelay := c.hasQuantumRelay || is.any (·.relays .quantum) }

variable {c c' : Circuit}

theorem extended_nil (c : Circuit) : c.extended [] = c := by
  simp [extended]

theorem extended_cons (c : Circuit) (i : Instruction) (rest : List Instruction) :
    c.extended (i :: rest) = (c.extended [i]).extended rest := by
  simp [extended, Bool.or_assoc]

theorem addInstruction_eq_ok {i : Instruction} : c.addInstruction i = .ok c' ↔
    Takes c.numQubits c.numClbits c.id i ∧ c' = c.extended [i] := by
  unfold addInstruction Takes
  rw [bind_eq_ok]
  constructor
  · rintro ⟨spec, hspec, h⟩
    refine ⟨⟨spec, hspec⟩, (Except.ok.inj h).symm.trans ?_⟩
    simp [extended, Instruction.relays, Instruction.relay_of_validate hspec]
  · rintro ⟨⟨spec, hspec⟩, rfl⟩
    refine ⟨spec, hspec, congrArg Except.ok ?_⟩
    simp [extended, Instruction.relays, Instruction.relay_of_validate hspec]

theorem addInstructions_eq_ok {is : List Instruction} : c.addInstructions is = .ok c' ↔
    (∀ i ∈ is, Takes c.numQubits c.numClbits c.id i) ∧ c' = c.extended is := by
  induction is generalizing c with
  | nil => simp [addInstructions, extended_nil, eq_comm]
  | cons i rest ih =>
    rw [addInstructions, bind_eq_ok, List.forall_mem_cons, extended_cons]
    simp only [addInstruction_eq_ok, ih]
    constructor
    · rintro ⟨_, ⟨hi, rfl⟩, hrest, rfl⟩
      exact ⟨⟨hi, hrest⟩, rfl⟩
    · rintro ⟨⟨hi, hrest⟩, rfl⟩
      exact ⟨_, ⟨hi, rfl⟩, hrest, rfl⟩

/-- What a snapshot says of a circuit before its first instruction. -/
def bare (s : Snapshot) : Circuit :=
  { id := s.id
    quantumRegisters := s.quantumRegisters
    classicalRegisters := s.classicalRegisters
    numQubits := s.numQubits
    numClbits := s.numClbits }

theorem ofSnapshot_eq_ok {s : Snapshot} : ofSnapshot s = .ok c ↔
    Register.Tiling s.quantumRegisters s.numQubits ∧
    Register.Tiling s.classicalRegisters s.numClbits ∧ s.id ≠ "" ∧
    (∀ i ∈ s.instructions, Takes s.numQubits s.numClbits s.id i) ∧
    c = (bare s).extended s.instructions := by
  unfold ofSnapshot
  split
  · next fault hfault =>
    simp only [reduceCtorEq, false_iff]
    rintro ⟨hquantum, hclassical, hid, -⟩
    rw [checkSnapshot_eq_ok.2 ⟨hquantum, hclassical, hid⟩] at hfault
    cases hfault
  · next hok =>
    obtain ⟨hquantum, hclassical, hid⟩ := checkSnapshot_eq_ok.1 hok
    have hadd : (bare s).addInstructions s.instructions = .ok c ↔ _ := addInstructions_eq_ok
    exact hadd.trans ⟨fun h => ⟨hquantum, hclassical, hid, h⟩, fun h => h.2.2.2⟩

end Circuit

namespace Snapshot

variable {s s' : Snapshot}

/-- A snapshot that describes a circuit has valid instructions only, and is told by its fields but for
the two flags. -/
theorem normalized_eq_ok (h : s.normalized = .ok s') :
    (∀ i ∈ s.instructions, Circuit.Takes s.numQubits s.numClbits s.id i) ∧
      { s with isParametric := s'.isParametric, isDistributed := s'.isDistributed } = s' := by
  obtain ⟨c, hc, h⟩ := bind_eq_ok.1 h
  obtain rfl := Except.ok.inj h
  obtain ⟨-, -, -, htakes, rfl⟩ := Circuit.ofSnapshot_eq_ok.1 hc
  exact ⟨htakes, by simp [Circuit.snapshot, Circuit.extended, Circuit.bare]⟩

end Snapshot

end QuantumRelay
