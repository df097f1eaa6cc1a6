import QuantumRelay.Proofs.Engine.Placement
import Mathlib.Data.List.Basic
import Mathlib.Tactic.FinCases

/-!
# Every valid instruction can be carried out

The catalog that instructions are checked against and the engine that carries them out are told apart
by names, each in its own way. They agree all the same: every unitary row of the table, with as many
qubits and parameters as it asks for, is an operation (`Operation.exists_named`), and a valid
instruction with its peer at hand is an action, wherever its circuit is placed
(`Action.exists_ofInstruction`).
-/

namespace QuantumRelay

variable {R : Type} [Scalar R]

/-! ### Gates -/

namespace Catalog

theorem arity_of_unitary : ∀ e ∈ table, e.2.unitary = true →
    e.1 = unitaryName ∧ e.2.arity = .ofMatrix 0 ∨
      e.1 ≠ unitaryName ∧ e.2.arity ∈ [Arity.fixed 1, .fixed 2, .fixed 3] := by decide

theorem unitary_cases {base : String} {gate : Spec} (hrow : (base, gate) ∈ table)
    (hunitary : gate.unitary = true) : base = unitaryName ∧ gate.arity = .ofMatrix 0 ∨
      base ≠ unitaryName ∧ ∃ q, gate.arity = .fixed q ∧ q.toNat ≤ 3 := by
  rcases arity_of_unitary _ hrow hunitary with h | ⟨hname, harity⟩
  · exact .inl h
  · simp only [List.mem_cons, List.not_mem_nil, or_false] at harity
    rcases harity with h | h | h <;> exact .inr ⟨hname, _, h, by decide⟩

theorem qubitArity_plus {base label : String} {gate variant : Spec} (hrow : (base, gate) ∈ table)
    (hunitary : gate.unitary = true) (hplus : variant.arity = gate.arity.plus 1) {m : Option Matrix}
    {arity : UInt32} (h : variant.qubitArity label m = .ok arity) :
    ∃ targets, gate.qubitArity label m = .ok targets ∧ arity.toNat = targets.toNat + 1 := by
  rcases unitary_cases hrow hunitary with ⟨-, hmatrix⟩ | ⟨-, q, hfixed, hq⟩
  · rw [hmatrix] at hplus
    obtain ⟨rows, n, rfl, hrows, hlt, rfl⟩ := (Spec.qubitArity_ofMatrix hplus).1 h
    have hlt' : n + 1 < UInt32.size := hlt
    refine ⟨_, (Spec.qubitArity_ofMatrix hmatrix).2 ⟨rows, n, rfl, hrows, ?_, rfl⟩, ?_⟩
    · exact (Nat.lt_succ_self n).trans hlt'
    · have hn : (UInt32.ofNat n).toNat = n := UInt32.toNat_ofNat_of_lt' (by omega)
      change (UInt32.ofNat n + 1).toNat = _
      rw [UInt32.add_zero, UInt32.toNat_add, hn]
      exact Nat.mod_eq_of_lt hlt'
  · rw [hfixed] at hplus
    obtain ⟨rfl, rfl⟩ := (Spec.qubitArity_fixed hplus).1 h
    refine ⟨q, (Spec.qubitArity_fixed hfixed).2 ⟨rfl, rfl⟩, ?_⟩
    rw [UInt32.toNat_add]
    apply Nat.mod_eq_of_lt
    change q.toNat + 1 < 4294967296
    omega

end Catalog

namespace Operation

theorem hasSide_of_qubits {m : Matrix} {n : Nat} (h : m.qubits = .ok n) : hasSide n m = true := by
  obtain ⟨hside, hrows⟩ := Matrix.eq_of_qubits h
  simp only [hasSide, BasisIndex.count, Nat.pow_eq, Bool.and_eq_true, decide_eq_true_eq,
    List.all_eq_true]
  exact ⟨hside, fun row hrow => (hrows row hrow).trans hside⟩

theorem exists_plain {e : String × Spec} (he : e ∈ Catalog.table) (hunitary : e.2.unitary = true)
    {arity : UInt32} (harity : e.2.arity = .fixed arity) {qubits : List Nat} {params : List R}
    (hqubits : qubits.length = arity.toNat) (hparams : params.length = e.2.params.toNat) :
    ∃ operation, plain? e.1 qubits params = some operation := by
  unfold Catalog.table at he
  fin_cases he
  -- Left are the rows that are unitary, and of these the ones without a matrix.
  all_goals cases hunitary
  all_goals cases harity
  all_goals first
    | obtain ⟨a, rfl⟩ := List.length_eq_one_iff.1 hqubits
    | obtain ⟨a, b, rfl⟩ := List.length_eq_two.1 hqubits
    | obtain ⟨a, b, c, rfl⟩ := List.length_eq_three.1 hqubits
  all_goals first
    | obtain rfl := List.length_eq_zero_iff.1 hparams
    | obtain ⟨x, rfl⟩ := List.length_eq_one_iff.1 hparams
    | obtain ⟨x, y, rfl⟩ := List.length_eq_two.1 hparams
    | obtain ⟨x, y, z, rfl⟩ := List.length_eq_three.1 hparams
    | obtain ⟨x, y, z, w, rfl⟩ := List.length_eq_four.1 hparams
  all_goals exact ⟨_, rfl⟩

theorem exists_named {base label : String} {gate : Spec} (hrow : (base, gate) ∈ Catalog.table)
    (hunitary : gate.unitary = true) {m : Option Matrix} {arity : UInt32}
    (harity : gate.qubitArity label m = .ok arity) {qubits : List Nat}
    (hqubits : qubits.length = arity.toNat) {params : List Float}
    (hparams : params.length = gate.params.toNat) :
    ∃ operation : Operation R, named base qubits params m = .ok operation := by
  unfold named
  rcases Catalog.unitary_cases hrow hunitary with ⟨rfl, hmatrix⟩ | ⟨hname, q, hfixed, -⟩
  · obtain ⟨rows, n, rfl, hrows, hlt, rfl⟩ := (Spec.qubitArity_ofMatrix hmatrix).1 harity
    have hn : qubits.length = n := by
      rw [hqubits, UInt32.add_zero, UInt32.toNat_ofNat_of_lt' (by simpa using hlt)]
    simp only [if_true, hn, hasSide_of_qubits hrows]
    exact ⟨_, rfl⟩
  · obtain ⟨rfl, rfl⟩ := (Spec.qubitArity_fixed hfixed).1 harity
    have hvalues : (params.map Scalar.ofFloat : List R).length = gate.params.toNat := by
      rw [List.length_map, hparams]
    obtain ⟨operation, hoperation⟩ := exists_plain hrow hunitary hfixed hqubits hvalues
    exact ⟨operation, by rw [if_neg hname, hoperation]⟩

end Operation

/-! ### Instructions -/

namespace Catalog

def nonUnitaryNames : List String := "measure" :: "reset" :: relayNames

theorem not_mem_of_unitary : ∀ e ∈ table, e.2.unitary = true →
    e.1 ∉ nonUnitaryNames ∧ afterStem? conditionalStem e.1 = none := by decide

theorem stems_of_nonUnitary : ∀ name ∈ nonUnitaryNames,
    afterStem? remoteStem name = none ∧ afterStem? conditionalStem name = none := by decide

end Catalog

namespace Action

variable {i : Instruction} {ids : List String} {offset : Nat} {s gate : Spec} {base : String}
  {peer : Option Nat} {qubits : List Nat} {arity : UInt32}

theorem exists_ofAnyGate (hrow : (i.name, s) ∈ Catalog.table) (hunitary : s.unitary = true)
    (harity : s.qubitArity i.name i.matrix = .ok arity) (hqubits : qubits.length = arity.toNat)
    (hparams : i.params.length = s.params.toNat) :
    ∃ a : Action R, ofAnyGate i peer qubits = .ok a := by
  obtain ⟨operation, hoperation⟩ :=
    Operation.exists_named (R := R) hrow hunitary harity hqubits hparams
  have hremote := Catalog.afterStem?_of_mem_table _ hrow
  have hstem := (Catalog.not_mem_of_unitary _ hrow hunitary).2
  unfold ofAnyGate ofGate
  rw [hremote]
  dsimp only
  rw [hstem]
  dsimp only
  rw [hoperation]
  exact ⟨_, rfl⟩

theorem exists_conditional (hremote : Catalog.afterStem? Catalog.remoteStem i.name = none)
    (hstem : Catalog.afterStem? Catalog.conditionalStem i.name = some base)
    (hrow : (base, gate) ∈ Catalog.table) (hunitary : gate.unitary = true)
    (harity : (Catalog.conditionalOf gate).qubitArity i.name i.matrix = .ok arity)
    (hqubits : qubits.length = arity.toNat) (hparams : i.params.length = gate.params.toNat) :
    ∃ a : Action R, ofAnyGate i peer qubits = .ok a := by
  obtain ⟨targetArity, htargetArity, hplus⟩ := Catalog.qubitArity_plus hrow hunitary rfl harity
  rw [hplus] at hqubits
  obtain ⟨control, targets, rfl⟩ := List.exists_cons_of_length_eq_add_one hqubits
  obtain ⟨operation, hoperation⟩ := Operation.exists_named (R := R) hrow hunitary htargetArity
    (Nat.succ.inj hqubits) hparams
  unfold ofAnyGate ofGate
  rw [hremote]
  dsimp only
  rw [hstem]
  dsimp only
  rw [hoperation]
  exact ⟨_, rfl⟩

theorem exists_remote {place : Nat} (hstem : Catalog.afterStem? Catalog.remoteStem i.name = some base)
    (hrow : (base, gate) ∈ Catalog.table) (hunitary : gate.unitary = true)
    (harity : (Catalog.remoteOf gate).qubitArity i.name i.matrix = .ok arity)
    (hqubits : qubits.length = arity.toNat) (hparams : i.params.length = gate.params.toNat) :
    ∃ a : Action R, ofAnyGate i (some place) qubits = .ok a := by
  unfold ofAnyGate ofRemoteGate
  rw [hstem]
  dsimp only
  rcases Catalog.unitary_cases hrow hunitary with ⟨rfl, hmatrix⟩ | ⟨hname, q, hfixed, -⟩
  · have hplus : (Catalog.remoteOf gate).arity = gate.arity.plus 1 := by
      rw [Catalog.remoteOf, hmatrix]
      rfl
    obtain ⟨targetArity, htargetArity, hplus⟩ := Catalog.qubitArity_plus hrow hunitary hplus harity
    rw [hplus] at hqubits
    obtain ⟨control, targets, rfl⟩ := List.exists_cons_of_length_eq_add_one hqubits
    obtain ⟨operation, hoperation⟩ := Operation.exists_named (R := R) hrow hunitary htargetArity
      (Nat.succ.inj hqubits) hparams
    rw [beq_self_eq_true]
    dsimp only
    rw [hoperation]
    exact ⟨_, rfl⟩
  · have hsame : (Catalog.remoteOf gate).arity = .fixed q := by rw [Catalog.remoteOf, hfixed]
    have hgate : gate.qubitArity i.name i.matrix = .ok arity :=
      (Spec.qubitArity_fixed hfixed).2 ((Spec.qubitArity_fixed hsame).1 harity)
    obtain ⟨operation, hoperation⟩ :=
      Operation.exists_named (R := R) hrow hunitary hgate hqubits hparams
    rw [beq_eq_false_iff_ne.2 hname]
    dsimp only
    rw [hoperation]
    exact ⟨_, rfl⟩

theorem ofInstruction_of_gate (h : i.name ∉ Catalog.nonUnitaryNames) :
    (ofInstruction ids offset i : Except _ (Action R)) =
      ofAnyGate i (i.peer.bind (ids.idxOf? ·)) (i.qubits.map fun q => offset + q.toNat) := by
  unfold ofInstruction
  dsimp only
  split <;> simp_all [Catalog.nonUnitaryNames, Catalog.relayNames]

theorem exists_nonUnitary (hrow : (i.name, s) ∈ Catalog.table) (hunitary : s.unitary = false)
    (harity : s.qubitArity i.name i.matrix = .ok arity) (hqubits : i.qubits.length = arity.toNat)
    (hclbits : i.clbits.length = s.clbits.toNat)
    (hplace : s.relay.isSome → ∃ place, i.peer.bind (ids.idxOf? ·) = some place) :
    ∃ a : Action R, ofInstruction ids offset i = .ok a := by
  obtain ⟨name, qubits, clbits, params, matrix, circuits⟩ := i
  unfold ofInstruction
  dsimp only at *
  generalize Option.bind _ _ = peer at *
  unfold Catalog.table at hrow
  fin_cases hrow
  -- Left are the six rows that are no unitary gates, in the order of the table.
  all_goals cases hunitary
  all_goals obtain ⟨-, rfl⟩ := (Spec.qubitArity_fixed rfl).1 harity
  · obtain ⟨q, rfl⟩ := List.length_eq_one_iff.1 hqubits
    obtain ⟨c, rfl⟩ := List.length_eq_one_iff.1 hclbits
    exact ⟨_, rfl⟩
  · obtain ⟨q, rfl⟩ := List.length_eq_one_iff.1 hqubits
    exact ⟨_, rfl⟩
  · obtain ⟨place, rfl⟩ := hplace rfl
    obtain ⟨q, rfl⟩ := List.length_eq_one_iff.1 hqubits
    exact ⟨_, rfl⟩
  · obtain ⟨place, rfl⟩ := hplace rfl
    obtain ⟨c, rfl⟩ := List.length_eq_one_iff.1 hclbits
    exact ⟨_, rfl⟩
  · obtain ⟨place, rfl⟩ := hplace rfl
    obtain ⟨q, rfl⟩ := List.length_eq_one_iff.1 hqubits
    exact ⟨_, rfl⟩
  · obtain ⟨place, rfl⟩ := hplace rfl
    obtain ⟨q, rfl⟩ := List.length_eq_one_iff.1 hqubits
    exact ⟨_, rfl⟩

/-- A valid instruction is an action wherever its circuit is placed, if its peer is in the group. -/
theorem exists_ofInstruction {numQubits numClbits : UInt32} {owner : String}
    (h : i.validate numQubits numClbits owner = .ok s) (hpeer : ∀ p, i.peer = some p → p ∈ ids)
    (offset : Nat) : ∃ a : Action R, ofInstruction ids offset i = .ok a := by
  have hboth := (Instruction.peer_of_validate h).1
  have hrelay := Instruction.relay_of_validate h
  obtain ⟨hfind, ⟨arity, harity, hindices⟩, hclindices, hvalues, -⟩ := Instruction.validate_eq_ok.1 h
  have hqubits := (Instruction.badIndices?_eq_none_iff.1 hindices).1
  have hclbits := (Instruction.badIndices?_eq_none_iff.1 hclindices).1
  have hparams := (Instruction.badParams?_eq_none_iff.1 hvalues).1
  have hlength : (i.qubits.map fun q => offset + q.toNat).length = arity.toNat := by
    rw [List.length_map, hqubits]
  have hplace (hend : s.relay.isSome) : ∃ place, i.peer.bind (ids.idxOf? ·) = some place := by
    rw [hrelay, hend, Option.isSome_iff_exists] at hboth
    obtain ⟨p, hp⟩ := hboth
    have hsome : (ids.idxOf? p).isSome := by simpa using hpeer p hp
    rw [hp, Option.bind_some]
    exact Option.isSome_iff_exists.1 hsome
  have hgate (hname : i.name ∉ Catalog.nonUnitaryNames) :
      (ofInstruction ids offset i : Except _ (Action R)) =
        ofAnyGate i (i.peer.bind (ids.idxOf? ·)) (i.qubits.map fun q => offset + q.toNat) :=
    ofInstruction_of_gate hname
  cases Catalog.entry_of_find? hfind with
  | row hrow =>
    cases hunitary : s.unitary with
    | true =>
      rw [hgate (Catalog.not_mem_of_unitary _ hrow hunitary).1]
      exact exists_ofAnyGate hrow hunitary harity hlength hparams
    | false => exact exists_nonUnitary hrow hunitary harity hqubits hclbits hplace
  | remote hstem hrow hunitary =>
    have hname : i.name ∉ Catalog.nonUnitaryNames := by
      intro hmem
      rw [(Catalog.stems_of_nonUnitary _ hmem).1] at hstem
      cases hstem
    obtain ⟨place, hplace⟩ := hplace rfl
    rw [hgate hname, hplace]
    exact exists_remote hstem hrow hunitary harity hlength hparams
  | conditional hremote hstem hrow hunitary =>
    have hname : i.name ∉ Catalog.nonUnitaryNames := by
      intro hmem
      rw [(Catalog.stems_of_nonUnitary _ hmem).2] at hstem
      cases hstem
    rw [hgate hname]
    exact exists_conditional hremote hstem hrow hunitary harity hlength hparams

end Action

end QuantumRelay
