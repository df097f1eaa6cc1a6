import QuantumRelay.Proofs.Circuit.Building

/-!
# Which snapshots describe a circuit

A snapshot describes a circuit if and only if, its two flags apart, it is the snapshot of a circuit that
can be built: registers first, each as long as it says and under its own name, then the instructions.
`construct_of_ofSnapshot` retraces such a construction from the fields of a snapshot, and what is
constructed is well-formed and so told by its snapshot. The two meet in `normalized_iff_construct`.
-/

namespace QuantumRelay

namespace Snapshot

/-- The same but for the two flags. -/
def Agrees (s t : Snapshot) : Prop :=
  { s with isParametric := t.isParametric, isDistributed := t.isDistributed } = t

end Snapshot

namespace Circuit

/-- A register to be added: its kind, its name and how many indices it gets. -/
structure Request where
  kind : RegisterKind
  name : String
  size : UInt32

def addRegisters (c : Circuit) : List Request → Except CircuitError Circuit
  | [] => .ok c
  | r :: rest => do
    (← (c.addRegister r.kind r.name r.size).map (·.circuit)).addRegisters rest

/-- Add registers to an empty circuit, and then instructions. -/
def construct (unique id : String) (registers : List Request) (instructions : List Instruction) :
    Except CircuitError Circuit := do
  (← (ofSize ("circuit-" ++ unique) id 0 0).addRegisters registers).addInstructions instructions

variable {c c' : Circuit} {s t : Snapshot}

/-! ### Retracing registers -/

theorem addRegisters_append (c : Circuit) (rs more : List Request) :
    c.addRegisters (rs ++ more) = c.addRegisters rs >>= (·.addRegisters more) := by
  induction rs generalizing c with
  | nil => rfl
  | cons r rest ih =>
    rw [List.cons_append, addRegisters, addRegisters]
    cases (c.addRegister r.kind r.name r.size).map (·.circuit) with
    | error e => rfl
    | ok now => exact ih now

def withRegisters (c : Circuit) (kind : RegisterKind) (registers : List Register) (size : UInt32) :
    Circuit :=
  match kind with
  | .quantum => { c with quantumRegisters := registers, numQubits := size }
  | .classical => { c with classicalRegisters := registers, numClbits := size }

theorem registers_withRegisters (c : Circuit) (kind : RegisterKind) (registers : List Register)
    (size : UInt32) : (c.withRegisters kind registers size).registers kind = registers := by
  cases kind with
  | quantum => rfl
  | classical => rfl

theorem size_withRegisters (c : Circuit) (kind : RegisterKind) (registers : List Register)
    (size : UInt32) : (c.withRegisters kind registers size).size kind = size := by
  cases kind with
  | quantum => rfl
  | classical => rfl

/-- The request for a register as long as a given one. -/
def requestFor (kind : RegisterKind) (r : Register) : Request :=
  ⟨kind, r.name, UInt32.ofNat r.indices.length⟩

theorem indices_of_tiling {before after : List Register} {r : Register} {start total : UInt32}
    (h : Register.Tiling (before ++ r :: after) total)
    (hstart : start.toNat = (Register.allIndices before).length) :
    start.toNat + (UInt32.ofNat r.indices.length).toNat < UInt32.size ∧
      r.indices = Register.run start (UInt32.ofNat r.indices.length) ∧
      (Register.allIndices (before ++ [r])).length =
        start.toNat + (UInt32.ofNat r.indices.length).toNat := by
  have hsplit : Register.allIndices (before ++ r :: after) =
      Register.allIndices before ++ (r.indices.map (·.toNat) ++ Register.allIndices after) := by
    rw [Register.allIndices_append]
    simp [Register.allIndices]
  have htotal : (Register.allIndices before).length + (r.indices.length +
      (Register.allIndices after).length) = total.toNat := by
    have hlen := congrArg List.length h.indices
    rw [hsplit] at hlen
    simpa using hlen
  have hlt := total.toNat_lt
  have hsize : (UInt32.ofNat r.indices.length).toNat = r.indices.length :=
    UInt32.toNat_ofNat_of_lt (by have : UInt32.size = 2 ^ 32 := rfl; omega)
  have hfits : start.toNat + (UInt32.ofNat r.indices.length).toNat < UInt32.size := by
    have : UInt32.size = 2 ^ 32 := rfl
    omega
  refine ⟨hfits, ?_, ?_⟩
  · have hindices := h.indices
    rw [hsplit, List.range_eq_range', ← htotal, ← List.range'_append_1] at hindices
    have hrest := (List.append_inj hindices (by simp)).2
    rw [← List.range'_append_1] at hrest
    have hrun := (List.append_inj hrest (by simp)).1
    refine List.map_injective_iff.2 (fun a b => UInt32.toNat_inj.1) ?_
    rw [Register.map_toNat_run hfits, hrun, hsize, hstart, Nat.zero_add]
  · rw [Register.allIndices_append, List.length_append, hstart, hsize]
    simp [Register.allIndices]

theorem addRegister_of_tiling {kind : RegisterKind} {before after : List Register} {r : Register}
    {start total : UInt32} (h : Register.Tiling (before ++ r :: after) total)
    (hstart : start.toNat = (Register.allIndices before).length) :
    ((c.withRegisters kind before start).addRegister kind r.name
        (UInt32.ofNat r.indices.length)).map (·.circuit) =
      .ok (c.withRegisters kind (before ++ [r]) (start + UInt32.ofNat r.indices.length)) := by
  obtain ⟨hfits, hindices, -⟩ := indices_of_tiling h hstart
  have hname : r.name ∉ before.map (·.name) := by
    have hnodup := h.names
    rw [List.map_append, List.map_cons] at hnodup
    exact fun hmem => (List.nodup_append.1 hnodup).2.2 _ hmem _ List.mem_cons_self rfl
  have hregister : Register.contiguous? r.name start (UInt32.ofNat r.indices.length) = some r :=
    Register.contiguous?_eq_some.2 ⟨hfits, by rw [← hindices]⟩
  unfold addRegister
  rw [registers_withRegisters, size_withRegisters, freeName_of_not_mem hname, ok_bind, hregister]
  cases kind with
  | quantum => rfl
  | classical => rfl

/-- Asking for the registers of a tiling one after the other gives the tiling. -/
theorem addRegisters_of_tiling {kind : RegisterKind} {before rest : List Register}
    {start total : UInt32} (h : Register.Tiling (before ++ rest) total)
    (hstart : start.toNat = (Register.allIndices before).length) :
    (c.withRegisters kind before start).addRegisters (rest.map (requestFor kind)) =
      .ok (c.withRegisters kind (before ++ rest) total) := by
  induction rest generalizing before start with
  | nil =>
    rw [List.append_nil] at h ⊢
    have htotal : start = total := UInt32.toNat_inj.1 (by
      rw [hstart, h.indices, List.length_range])
    rw [htotal]
    rfl
  | cons r rest ih =>
    obtain ⟨hfits, -, hlength⟩ := indices_of_tiling h hstart
    have hrest := @ih (before ++ [r]) (start + UInt32.ofNat r.indices.length)
      (by rwa [List.append_assoc]) (by rw [Register.toNat_add hfits, hlength])
    rw [List.append_assoc] at hrest
    exact bind_eq_ok.2 ⟨_, addRegister_of_tiling h hstart, hrest⟩

/-! ### Both directions -/

theorem WellFormed.addRegisters (h : WellFormed c) {rs : List Request}
    (hc : c.addRegisters rs = .ok c') : WellFormed c' := by
  induction rs generalizing c with
  | nil => exact Except.ok.inj hc ▸ h
  | cons r rest ih =>
    obtain ⟨_, hr, hc⟩ := bind_eq_ok.1 hc
    obtain ⟨e, he, rfl⟩ := map_eq_ok.1 hr
    exact ih (h.addRegister he) hc

theorem wellFormed_of_construct {unique id : String} {registers : List Request}
    {instructions : List Instruction} (h : construct unique id registers instructions = .ok c) :
    WellFormed c := by
  obtain ⟨furnished, hfurnished, h⟩ := bind_eq_ok.1 h
  obtain ⟨htakes, rfl⟩ := addInstructions_eq_ok.1 h
  exact ((WellFormed.ofSize (by simp) id 0 0).addRegisters hfurnished).extended htakes

def requests (s : Snapshot) : List Request :=
  s.quantumRegisters.map (requestFor .quantum) ++ s.classicalRegisters.map (requestFor .classical)

/-- The circuit that a snapshot describes can be built from its registers and its instructions. -/
theorem construct_of_ofSnapshot (unique : String) (h : ofSnapshot s = .ok c) :
    construct unique s.id (requests s) s.instructions = .ok c := by
  obtain ⟨hquantum, hclassical, hid, htakes, rfl⟩ := ofSnapshot_eq_ok.1 h
  have hempty : ofSize ("circuit-" ++ unique) s.id 0 0 =
      ({ id := s.id } : Circuit).withRegisters .quantum [] 0 := by
    unfold ofSize
    rw [if_neg (by simpa using hid)]
    rfl
  have hqubits := @addRegisters_of_tiling { id := s.id } .quantum [] _ 0 _ hquantum rfl
  have hclbits := @addRegisters_of_tiling
    (({ id := s.id } : Circuit).withRegisters .quantum s.quantumRegisters s.numQubits)
    .classical [] _ 0 _ hclassical rfl
  refine bind_eq_ok.2 ⟨bare s, ?_, addInstructions_eq_ok.2 ⟨htakes, rfl⟩⟩
  rw [requests, addRegisters_append, hempty, hqubits]
  exact hclbits

/-- The snapshot of a circuit that can be built stays as it is, whatever was called on the way. -/
theorem normalized_snapshot (h : WellFormed c) : c.snapshot.normalized = .ok c.snapshot :=
  bind_eq_ok.2 ⟨c, h.ofSnapshot_snapshot, rfl⟩

theorem wellFormed_built (unique id : String) (numQubits numClbits : UInt32)
    (ops : List Operation) : WellFormed (built unique id numQubits numClbits ops) :=
  (WellFormed.ofSize (by simp) id numQubits numClbits).after ops

theorem isDistributed_eq (h : WellFormed c) :
    c.isDistributed = c.instructions.any (·.relay.isSome) := by
  have hrelays (i : Instruction) :
      i.relay.isSome = (i.relays .classical || i.relays .quantum) := by
    unfold Instruction.relays
    cases i.relay with
    | none => rfl
    | some r =>
      obtain ⟨kind, role⟩ := r
      cases kind with
      | classical => rfl
      | quantum => rfl
  have hclassical : c.hasClassicalRelay = c.instructions.any (·.relays .classical) :=
    h.hasRelay_eq .classical
  have hquantum : c.hasQuantumRelay = c.instructions.any (·.relays .quantum) :=
    h.hasRelay_eq .quantum
  rw [isDistributed, hclassical, hquantum]
  induction c.instructions with
  | nil => rfl
  | cons i rest ih =>
    rw [List.any_cons, List.any_cons, List.any_cons, ← ih, hrelays]
    cases i.relays .classical <;> cases i.relays .quantum <;> simp

end Circuit

namespace Snapshot

open Circuit

variable {s t : Snapshot}

theorem agrees_of_normalized (h : s.normalized = .ok t) : s.Agrees t := (normalized_eq_ok h).2

/-- The flags of a snapshot do not matter to what it describes. -/
theorem Agrees.normalized_eq (h : s.Agrees t) : s.normalized = t.normalized := by
  rw [← show _ = t from h]
  rfl

/-- A snapshot describes a circuit if and only if, its flags apart, it is the snapshot of one that can
be built by adding registers and then instructions to an empty circuit. The snapshot of that circuit is
what it is normalized to: it has the same fields, its flags say whether an instruction is parametric and
whether one is a relay end, and it stays as it is when it is normalized again. Whatever else is called
to build a circuit, its snapshot is accepted as well. -/
theorem normalized_iff_construct (s : Snapshot) :
    (∀ t, s.normalized = .ok t ↔ ∃ unique id registers instructions c,
      construct unique id registers instructions = .ok c ∧ s.Agrees c.snapshot ∧ c.snapshot = t) ∧
    (∀ unique id numQubits numClbits ops,
      s.Agrees (built unique id numQubits numClbits ops).snapshot →
        s.normalized = .ok (built unique id numQubits numClbits ops).snapshot) ∧
    ∀ t, s.normalized = .ok t →
      s.Agrees t ∧ t.isParametric = t.instructions.any (·.isParametric) ∧
        t.isDistributed = t.instructions.any (·.relay.isSome) ∧ t.normalized = .ok t := by
  have haccepted {c : Circuit} (hc : WellFormed c) (h : s.Agrees c.snapshot) :
      s.normalized = .ok c.snapshot := h.normalized_eq.trans (normalized_snapshot hc)
  refine ⟨fun t => ⟨fun h => ?_, ?_⟩, fun _ _ _ _ _ h => haccepted (wellFormed_built ..) h,
    fun t h => ?_⟩
  · have hagrees := agrees_of_normalized h
    obtain ⟨c, hc, h⟩ := bind_eq_ok.1 h
    obtain rfl := Except.ok.inj h
    exact ⟨"", s.id, requests s, s.instructions, c, construct_of_ofSnapshot "" hc, hagrees, rfl⟩
  · rintro ⟨unique, id, registers, instructions, c, hc, hagrees, rfl⟩
    exact haccepted (wellFormed_of_construct hc) hagrees
  · have hagrees := agrees_of_normalized h
    have hagain := normalized_normalized h
    obtain ⟨c, hc, h⟩ := bind_eq_ok.1 h
    obtain rfl := Except.ok.inj h
    have hwellFormed := WellFormed.ofSnapshot hc
    exact ⟨hagrees, hwellFormed.isParametric_eq, isDistributed_eq hwellFormed, hagain⟩

/-- A sender with an empty register between two others, whose flags are both wrong. -/
def mislabelled : Snapshot where
  id := "sender"
  instructions := [{ name := "rx", qubits := [1], params := [0.5] },
    { name := "measure_and_send", qubits := [0], circuits := ["receiver"] }]
  numQubits := 2
  numClbits := 1
  quantumRegisters := [⟨"head", [0]⟩, ⟨"none", []⟩, ⟨"tail", [1]⟩]
  classicalRegisters := [⟨"bit", [0]⟩]
  isParametric := false
  isDistributed := false

/-- It is what one gets by asking for its registers and its instructions, but for its flags, which are
set right. -/
theorem normalized_mislabelled :
    mislabelled.normalized =
        .ok { mislabelled with isParametric := true, isDistributed := true } ∧
      Snapshot.normalized { mislabelled with isParametric := true, isDistributed := true } =
        .ok { mislabelled with isParametric := true, isDistributed := true } := by
  have hclassical := @addRegisters_of_tiling { id := "sender" } .classical []
    mislabelled.classicalRegisters 0 1 ⟨by decide, by decide⟩ rfl
  have hquantum := @addRegisters_of_tiling
    { id := "sender", classicalRegisters := mislabelled.classicalRegisters, numClbits := 1 }
    .quantum [] mislabelled.quantumRegisters 0 2 ⟨by decide, by decide⟩ rfl
  have hfurnished : (ofSize "circuit-" "sender" 0 0).addRegisters
      [⟨.classical, "bit", 1⟩, ⟨.quantum, "head", 1⟩, ⟨.quantum, "none", 0⟩, ⟨.quantum, "tail", 1⟩] =
        .ok { id := "sender"
              quantumRegisters := mislabelled.quantumRegisters
              classicalRegisters := mislabelled.classicalRegisters
              numQubits := 2
              numClbits := 1 } :=
    (addRegisters_append _ [_] _).trans (bind_eq_ok.2 ⟨_, hclassical, hquantum⟩)
  have hconstructed : construct "" "sender"
      [⟨.classical, "bit", 1⟩, ⟨.quantum, "head", 1⟩, ⟨.quantum, "none", 0⟩, ⟨.quantum, "tail", 1⟩]
      mislabelled.instructions =
        .ok { id := "sender"
              quantumRegisters := mislabelled.quantumRegisters
              classicalRegisters := mislabelled.classicalRegisters
              instructions := mislabelled.instructions
              numQubits := 2
              numClbits := 1
              isParametric := true
              hasClassicalRelay := true } := bind_eq_ok.2 ⟨_, hfurnished, rfl⟩
  have hnormalized := ((normalized_iff_construct mislabelled).1 _).2
    ⟨_, _, _, _, _, hconstructed, rfl, rfl⟩
  exact ⟨hnormalized, ((normalized_iff_construct mislabelled).2.2 _ hnormalized).2.2.2⟩

end Snapshot

end QuantumRelay
