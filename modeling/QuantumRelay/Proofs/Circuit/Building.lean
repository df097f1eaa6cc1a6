import QuantumRelay.Circuit.Builder
import QuantumRelay.Proofs.Circuit.WellFormed

/-!
# Circuits under construction

A call on a circuit makes its changes in place and one after the other: what was made before a change
that is refused stays made (`inPlace`). Only `measureAll` makes several, a register and then one
measurement for each qubit. None of these is refused once the register is there (`takes_measurement`),
so every call is made as a whole or not at all (`perform_eq`). Hence every circuit that can be built is
well-formed and told by its snapshot, whatever was refused on the way (`built_wellFormed`).
-/

namespace QuantumRelay.Circuit

/-! ### Calls -/

/-- One change of a circuit, made or refused. -/
abbrev Step : Type := Circuit → Except CircuitError Circuit

/-- Make changes in turn, up to the first one that is refused. -/
def inPlace : List Step → Circuit → Except CircuitError Unit × Circuit
  | [], c => (.ok (), c)
  | step :: rest, c =>
    match step c with
    | .ok c' => inPlace rest c'
    | .error e => (.error e, c)

/-- A call on a circuit. -/
inductive Operation where
  | addRegister (kind : RegisterKind) (base : String) (size : UInt32)
  | addInstruction (i : Instruction)
  | gate (name : String) (qubits : List UInt32) (params : List Float)
  | unitary (matrix : Matrix) (qubits : List UInt32)
  | measure (qubit clbit : UInt32)
  | measureAll
  | gateIf (name : String) (control : UInt32) (targets : List UInt32) (params : List Float)
  | unitaryIf (matrix : Matrix) (control : UInt32) (targets : List UInt32)
  | measureAndSend (qubit : UInt32) (peer : String)
  | receiveBit (clbit : UInt32) (peer : String)
  | gateIfRemote (name : String) (targets : List UInt32) (params : List Float) (peer : String)
  | unitaryIfRemote (matrix : Matrix) (control : UInt32) (targets : List UInt32) (peer : String)
  | sendQubit (qubit : UInt32) (peer : String)
  | receiveQubit (qubit : UInt32) (peer : String)
  | assignParameters (values : List Float)
  /-- Put the circuit of a snapshot in place of this one. -/
  | reload (s : Snapshot)

/-- The changes of `measureAll`: a register for the outcomes, then one measurement after the other. -/
def measureAllSteps (c : Circuit) : List Step :=
  if c.numQubits = 0 then []
  else
    (fun now => (now.addRegister .classical "meas" c.numQubits).map (·.circuit)) ::
      (List.range c.numQubits.toNat).map fun k now =>
        now.measure (UInt32.ofNat k) (c.numClbits + UInt32.ofNat k)

namespace Operation

/-- What a call comes to as a whole. -/
def change : Operation → Step
  | .addRegister kind base size, c => (c.addRegister kind base size).map (·.circuit)
  | .addInstruction i, c => c.addInstruction i
  | .gate name qubits params, c => c.gate name qubits params
  | .unitary matrix qubits, c => c.unitary matrix qubits
  | .measure qubit clbit, c => c.measure qubit clbit
  | .measureAll, c => c.measureAll.map (·.circuit)
  | .gateIf name control targets params, c => c.gateIf name control targets params
  | .unitaryIf matrix control targets, c => c.unitaryIf matrix control targets
  | .measureAndSend qubit peer, c => c.measureAndSend qubit peer
  | .receiveBit clbit peer, c => c.receiveBit clbit peer
  | .gateIfRemote name targets params peer, c => c.gateIfRemote name targets params peer
  | .unitaryIfRemote matrix control targets peer, c => c.unitaryIfRemote matrix control targets peer
  | .sendQubit qubit peer, c => c.sendQubit qubit peer
  | .receiveQubit qubit peer, c => c.receiveQubit qubit peer
  | .assignParameters values, c => c.assignParameters values
  | .reload s, _ => ofSnapshot s

def steps (c : Circuit) : Operation → List Step
  | .measureAll => c.measureAllSteps
  | op => [op.change]

/-- What a call answers, and the circuit that it leaves behind. -/
def perform (op : Operation) (c : Circuit) : Except CircuitError Unit × Circuit :=
  inPlace (op.steps c) c

theorem change_cases (op : Operation) :
    (∃ kind base size, op = .addRegister kind base size) ∨
    (∃ i, op.change = fun c => c.addInstruction i) ∨
    op = .measureAll ∨ (∃ values, op = .assignParameters values) ∨ ∃ s, op = .reload s := by
  cases op with
  | addRegister kind base size => exact .inl ⟨kind, base, size, rfl⟩
  | measureAll => exact .inr (.inr (.inl rfl))
  | assignParameters values => exact .inr (.inr (.inr (.inl ⟨values, rfl⟩)))
  | reload s => exact .inr (.inr (.inr (.inr ⟨s, rfl⟩)))
  | _ => exact .inr (.inl ⟨_, rfl⟩)

end Operation

/-- The circuit that calls leave behind, whether they succeed or not. -/
def after (c : Circuit) (ops : List Operation) : Circuit :=
  ops.foldl (fun now op => (op.perform now).2) c

/-- A new circuit after some calls. One without an id gets one that ends in `unique`. -/
def built (unique id : String) (numQubits numClbits : UInt32) (ops : List Operation) : Circuit :=
  (ofSize ("circuit-" ++ unique) id numQubits numClbits).after ops

/-! ### All or nothing -/

variable {c c' : Circuit}

/-- What is left if a change is made as a whole or not at all. -/
def settled (c : Circuit) : Except CircuitError Circuit → Except CircuitError Unit × Circuit
  | .ok c' => (.ok (), c')
  | .error e => (.error e, c)

theorem inPlace_singleton (step : Step) (c : Circuit) : inPlace [step] c = settled c (step c) := by
  unfold inPlace settled
  cases step c with
  | error e => rfl
  | ok c' => rfl

theorem inPlace_instructions {is : List Instruction}
    (h : ∀ i ∈ is, Takes c.numQubits c.numClbits c.id i) :
    inPlace (is.map fun i now => now.addInstruction i) c = (.ok (), c.extended is) := by
  induction is generalizing c with
  | nil => rw [extended_nil]; rfl
  | cons i rest ih =>
    obtain ⟨hi, hrest⟩ := List.forall_mem_cons.1 h
    rw [List.map_cons, inPlace, extended_cons, addInstruction_eq_ok.2 ⟨hi, rfl⟩]
    exact ih (c := c.extended [i]) hrest

theorem takes_measurement {numQubits numClbits qubit clbit : UInt32} (id : String)
    (hqubit : qubit < numQubits) (hclbit : clbit < numClbits) :
    Takes numQubits numClbits id { name := "measure", qubits := [qubit], clbits := [clbit] } := by
  have hindices (available index : UInt32) (h : index < available) :
      [index].length = (1 : UInt32).toNat ∧ [index].Nodup ∧ ∀ q ∈ [index], q < available :=
    ⟨rfl, List.nodup_singleton _, List.forall_mem_singleton.2 h⟩
  have hspec : Catalog.find? "measure" = some (.nonUnitary 1 1) := by decide
  refine ⟨.nonUnitary 1 1, ?_⟩
  rw [Instruction.validate_eq_ok, Instruction.badIndices?_eq_none_iff]
  refine ⟨hspec, ⟨1, rfl, ?_⟩, hindices _ _ hclbit, rfl, rfl⟩
  exact Instruction.badIndices?_eq_none_iff.2 (hindices _ _ hqubit)

theorem takes_measureAll {e : Extension}
    (he : c.addRegister .classical "meas" c.numQubits = .ok e) {k : Nat} (hk : k < c.numQubits.toNat) :
    Takes e.circuit.numQubits e.circuit.numClbits e.circuit.id
      { name := "measure", qubits := [UInt32.ofNat k], clbits := [c.numClbits + UInt32.ofNat k] } := by
  obtain ⟨hfits, -, hgrown⟩ := addRegister_eq_ok he
  have hfits : c.numClbits.toNat + c.numQubits.toNat < UInt32.size := hfits
  have hsize : k < UInt32.size := by omega
  have hindex : (UInt32.ofNat k).toNat = k := UInt32.toNat_ofNat_of_lt hsize
  rw [hgrown]
  refine takes_measurement _ ?_ ?_
  · rw [UInt32.lt_iff_toNat_lt, hindex]
    exact hk
  · show c.numClbits + UInt32.ofNat k < c.numClbits + c.numQubits
    rw [UInt32.lt_iff_toNat_lt, Register.toNat_add hfits, Register.toNat_add (by rw [hindex]; omega),
      hindex]
    omega

theorem inPlace_measureAll (c : Circuit) :
    inPlace c.measureAllSteps c = settled c (c.measureAll.map (·.circuit)) := by
  unfold measureAllSteps measureAll
  split
  · rfl
  · rw [inPlace]
    cases he : c.addRegister .classical "meas" c.numQubits with
    | error fault => rfl
    | ok e =>
      set measurements := (List.range c.numQubits.toNat).map fun k =>
        ({ name := "measure", qubits := [UInt32.ofNat k]
           clbits := [c.numClbits + UInt32.ofNat k] } : Instruction) with hmeasurements
      have htakes : ∀ i ∈ measurements,
          Takes e.circuit.numQubits e.circuit.numClbits e.circuit.id i := by
        intro i hi
        obtain ⟨k, hk, rfl⟩ := List.mem_map.1 hi
        exact takes_measureAll he (List.mem_range.1 hk)
      have hadd := addInstructions_eq_ok.2 ⟨htakes, rfl⟩
      have hsteps := inPlace_instructions htakes
      rw [hmeasurements, List.map_map] at hsteps
      refine hsteps.trans ?_
      show _ = settled c ((do
        pure { e with circuit := ← e.circuit.addInstructions measurements } :
          Except CircuitError Extension).map (·.circuit))
      rw [hadd]
      rfl

/-- A call is made as a whole or not at all. -/
theorem perform_eq (op : Operation) (c : Circuit) : op.perform c = settled c (op.change c) := by
  cases op with
  | measureAll => exact inPlace_measureAll c
  | _ => exact inPlace_singleton _ c

/-! ### What calls keep -/

/-- `measureAll` does nothing to a circuit without qubits, and adds one register and instructions to
any other. -/
theorem measureAll_eq_ok {e : Extension} (he : c.measureAll = .ok e) :
    e.circuit = c ∨ ∃ grown is, c.addRegister .classical "meas" c.numQubits = .ok grown ∧
      (∀ i ∈ is, Takes grown.circuit.numQubits grown.circuit.numClbits grown.circuit.id i) ∧
      e.circuit = grown.circuit.extended is := by
  unfold measureAll at he
  split at he
  · obtain rfl := Except.ok.inj he
    exact .inl rfl
  · obtain ⟨grown, hgrown, he⟩ := bind_eq_ok.1 he
    obtain ⟨c', hc', he⟩ := bind_eq_ok.1 he
    obtain rfl := Except.ok.inj he
    obtain ⟨htakes, rfl⟩ := addInstructions_eq_ok.1 hc'
    exact .inr ⟨grown, _, hgrown, htakes, rfl⟩

theorem WellFormed.measureAll (h : WellFormed c) {e : Extension} (he : c.measureAll = .ok e) :
    WellFormed e.circuit := by
  obtain hsame | ⟨grown, is, hgrown, htakes, heq⟩ := measureAll_eq_ok he
  · rwa [hsame]
  · rw [heq]
    exact (h.addRegister hgrown).extended htakes

theorem WellFormed.change (h : WellFormed c) {op : Operation} (hc : op.change c = .ok c') :
    WellFormed c' := by
  obtain ⟨kind, base, size, rfl⟩ | ⟨i, hi⟩ | rfl | ⟨values, rfl⟩ | ⟨s, rfl⟩ := op.change_cases
  · obtain ⟨e, he, rfl⟩ := map_eq_ok.1 hc
    exact h.addRegister he
  · rw [hi] at hc
    exact h.addInstruction hc
  · obtain ⟨e, he, rfl⟩ := map_eq_ok.1 hc
    exact h.measureAll he
  · exact h.assignParameters hc
  · exact ofSnapshot hc

theorem WellFormed.perform (h : WellFormed c) (op : Operation) : WellFormed (op.perform c).2 := by
  rw [perform_eq]
  cases hc : op.change c with
  | error e => exact h
  | ok c' => exact h.change hc

theorem WellFormed.after (h : WellFormed c) (ops : List Operation) : WellFormed (c.after ops) := by
  induction ops generalizing c with
  | nil => exact h
  | cons op rest ih => exact ih (h.perform op)

theorem registers_extended (c : Circuit) (is : List Instruction) (kind : RegisterKind) :
    (c.extended is).registers kind = c.registers kind := by
  cases kind with
  | quantum => rfl
  | classical => rfl

theorem registers_addRegister {kind : RegisterKind} {base : String} {size : UInt32} {e : Extension}
    (he : c.addRegister kind base size = .ok e) (other : RegisterKind) :
    c.registers other <+: e.circuit.registers other := by
  obtain ⟨-, -, hgrown⟩ := addRegister_eq_ok he
  rw [hgrown]
  cases kind with
  | quantum =>
    cases other with
    | quantum => exact List.prefix_append ..
    | classical => exact List.prefix_rfl
  | classical =>
    cases other with
    | quantum => exact List.prefix_rfl
    | classical => exact List.prefix_append ..

/-- Registers stay where they are, and new ones come after them. -/
theorem registers_change {op : Operation} (hop : ∀ s, op ≠ .reload s) (hc : op.change c = .ok c')
    (kind : RegisterKind) : c.registers kind <+: c'.registers kind := by
  obtain ⟨_, base, size, rfl⟩ | ⟨i, hi⟩ | rfl | ⟨values, rfl⟩ | ⟨s, rfl⟩ := op.change_cases
  · obtain ⟨e, he, rfl⟩ := map_eq_ok.1 hc
    exact registers_addRegister he kind
  · rw [hi] at hc
    obtain ⟨-, rfl⟩ := addInstruction_eq_ok.1 hc
    exact (registers_extended c [i] kind).symm ▸ List.prefix_rfl
  · obtain ⟨e, he, rfl⟩ := map_eq_ok.1 hc
    obtain hsame | ⟨grown, is, hgrown, -, heq⟩ := measureAll_eq_ok he
    · exact hsame.symm ▸ List.prefix_rfl
    · rw [heq, registers_extended]
      exact registers_addRegister hgrown kind
  · obtain ⟨is, -, hc⟩ := bind_eq_ok.1 hc
    obtain rfl := Except.ok.inj hc
    cases kind with
    | quantum => exact List.prefix_rfl
    | classical => exact List.prefix_rfl
  · exact absurd rfl (hop s)

/-! ### Every circuit that can be built -/

/-- Whatever is called on a new circuit, with whatever arguments and results: the circuit is
well-formed, its snapshot gives it back, a call that is refused leaves it as it was, and new registers
come after the ones that there are. -/
theorem built_wellFormed (unique id : String) (numQubits numClbits : UInt32) (ops : List Operation) :
    WellFormed (built unique id numQubits numClbits ops) ∧
    ofSnapshot (built unique id numQubits numClbits ops).snapshot =
      .ok (built unique id numQubits numClbits ops) ∧
    ∀ op : Operation,
      (∀ e, (op.perform (built unique id numQubits numClbits ops)).1 = .error e →
        (op.perform (built unique id numQubits numClbits ops)).2 =
          built unique id numQubits numClbits ops) ∧
      ((∀ s, op ≠ .reload s) → ∀ kind, (built unique id numQubits numClbits ops).registers kind <+:
        (op.perform (built unique id numQubits numClbits ops)).2.registers kind) := by
  have hgenerated : "circuit-" ++ unique ≠ "" := by simp
  have hbuilt : WellFormed (built unique id numQubits numClbits ops) :=
    (WellFormed.ofSize hgenerated id numQubits numClbits).after ops
  refine ⟨hbuilt, hbuilt.ofSnapshot_snapshot, fun op => ⟨fun e he => ?_, fun hop kind => ?_⟩⟩
  · rw [perform_eq] at he ⊢
    cases hc : op.change (built unique id numQubits numClbits ops) with
    | error _ => rfl
    | ok c' =>
      rw [hc] at he
      cases he
  · rw [perform_eq]
    cases hc : op.change (built unique id numQubits numClbits ops) with
    | error _ => exact List.prefix_rfl
    | ok c' => exact registers_change hop hc kind

/-- A circuit without room for the outcomes of all its qubits stays as it is. -/
theorem measureAll_without_room :
    (Operation.measureAll.perform (built "" "full" 1 4294967295 [])).1 =
        .error (.registerOverflow .classical "meas" 1) ∧
      (Operation.measureAll.perform (built "" "full" 1 4294967295 [])).2 =
        built "" "full" 1 4294967295 [] ∧
      (Operation.measureAll.perform (built "" "full" 1 4294967295 [])).2.registers .quantum =
        [⟨"q", [0]⟩] := by
  have herror : (Operation.measureAll.perform (built "" "full" 1 4294967295 [])).1 =
      .error (.registerOverflow .classical "meas" 1) := by
    have hnames : ((built "" "full" 1 4294967295 []).registers .classical).map (·.name) = ["c"] := rfl
    have hname : "meas" ∉ ((built "" "full" 1 4294967295 []).registers .classical).map (·.name) := by
      rw [hnames]
      decide
    have hrefused : (built "" "full" 1 4294967295 []).addRegister .classical "meas" 1 =
        .error (.registerOverflow .classical "meas" 1) :=
      addRegister_of_not_fits (freeName_of_not_mem hname) (by decide)
    have hall : (built "" "full" 1 4294967295 []).measureAll =
        .error (.registerOverflow .classical "meas" 1) := by
      show ((built "" "full" 1 4294967295 []).addRegister .classical "meas" 1 >>= _) = _
      rw [hrefused]
      rfl
    rw [perform_eq, Operation.change, hall]
    rfl
  have hsame := ((built_wellFormed "" "full" 1 4294967295 []).2.2 .measureAll).1 _ herror
  exact ⟨herror, hsame, by rw [hsame]; rfl⟩

end QuantumRelay.Circuit
