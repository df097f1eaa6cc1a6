import QuantumRelay.Engine.Run
import QuantumRelay.Proofs.Engine.Placement

/-!
# How a run can fail

The run of a group that is complete, that is, whose circuits are distinct and relay with one another
only, fails for few causes (`OwnFault`): the method, the size of the joint state, an operation that
the simulator lacks, or a deadlock. It never misses a circuit or finds one twice (`ownFault_of_run`).

If some instructions are not valid, their own fault is one more cause. Circuits are not missed as long
as the peers of the valid ones are at hand (`fault_of_run`).
-/

namespace QuantumRelay.Engine

variable {σ R : Type} [Scalar R] {e : SimulationError}

/-- What can go wrong in the run of a complete group. -/
inductive OwnFault : SimulationError → Prop where
  | method (m : Method) : OwnFault (.unsupportedMethod m)
  | size (needed limit : Nat) : OwnFault (.tooManyQubits needed limit)
  | instruction (name : String) : OwnFault (.unsupportedInstruction name)
  | matrix (qubits : Nat) : OwnFault (.invalidRequest (.matrixShape qubits))
  | deadlock (waits : List Wait) : OwnFault (.deadlock waits)

/-! ### Laying out -/

theorem ownFault_of_named {name : String} {qubits : List Nat} {params : List Float}
    {m : Option Matrix}
    (h : (Operation.named name qubits params m : Except _ (Operation R)) = .error e) :
    OwnFault e := by
  unfold Operation.named at h
  split at h
  · split at h
    · obtain rfl := Except.error.inj h
      exact .instruction name
    · split at h
      · cases h
      · obtain rfl := Except.error.inj h
        exact .matrix qubits.length
  · split at h
    · cases h
    · obtain rfl := Except.error.inj h
      exact .instruction name

theorem ownFault_of_ofGate {i : Instruction} {qubits : List Nat}
    (h : (Action.ofGate i qubits : Except _ (Action R)) = .error e) : OwnFault e := by
  unfold Action.ofGate at h
  split at h
  · exact ownFault_of_named (map_eq_error.1 h)
  · exact ownFault_of_named (map_eq_error.1 h)

theorem ownFault_of_ofAnyGate {i : Instruction} {peer : Option Nat} {qubits : List Nat}
    (h : (Action.ofAnyGate i peer qubits : Except _ (Action R)) = .error e) : OwnFault e := by
  unfold Action.ofAnyGate at h
  split at h
  · unfold Action.ofRemoteGate at h
    split at h
    · exact ownFault_of_named (map_eq_error.1 h)
    · exact ownFault_of_named (map_eq_error.1 h)
  · obtain rfl := Except.error.inj h
    exact .instruction i.name
  · exact ownFault_of_ofGate h

theorem ownFault_of_ofInstruction {ids : List String} {offset : Nat} {i : Instruction}
    (h : (Action.ofInstruction ids offset i : Except _ (Action R)) = .error e) : OwnFault e := by
  unfold Action.ofInstruction at h
  simp only at h
  split at h
  case h_7 => exact ownFault_of_ofAnyGate h
  all_goals cases h

theorem ownFault_of_tasksOf {ids : List String} {offset : Nat} {is : List Instruction}
    (h : (Layout.tasksOf ids offset is : Except _ (List (Task R))) = .error e) : OwnFault e := by
  induction is with
  | nil => cases h
  | cons i rest ih =>
    rw [Layout.tasksOf, bind_eq_error] at h
    rcases h with h | ⟨action, -, h⟩
    · exact ownFault_of_ofInstruction h
    · rw [bind_eq_error] at h
      rcases h with h | ⟨tasks, -, h⟩
      · exact ih h
      · cases h

theorem ownFault_of_place {ids : List String} {offset : Nat} {group : List RunRequest}
    (h : (Layout.place ids offset group : Except _ (List (Member R))) = .error e) : OwnFault e := by
  induction group generalizing offset with
  | nil => cases h
  | cons r rest ih =>
    rw [Layout.place, bind_eq_error] at h
    rcases h with h | ⟨tasks, -, h⟩
    · exact ownFault_of_tasksOf h
    · rw [bind_eq_error] at h
      rcases h with h | ⟨members, -, h⟩
      · exact ih h
      · cases h

variable {group : List RunRequest} (hnodup : (group.map (·.id)).Nodup)
  (hrunnable : ∀ r ∈ group, Layout.Runnable (group.map (·.id)) r)

include hnodup hrunnable in
theorem ownFault_of_ofGroup {maxQubits : Nat}
    (h : (Layout.ofGroup maxQubits group : Except _ (Layout R)) = .error e) : OwnFault e := by
  unfold Layout.ofGroup at h
  dsimp only at h
  rw [Names.firstRepeated?_eq_none_iff.2 ⟨hnodup, fun _ _ => List.not_mem_nil⟩] at h
  dsimp only at h
  rw [Layout.checkRequests_eq_ok.2 hrunnable, bind_eq_error] at h
  rcases h with h | ⟨-, -, h⟩
  · cases h
  · split at h
    · obtain rfl := Except.error.inj h
      exact .size ..
    · rw [bind_eq_error] at h
      rcases h with h | ⟨members, -, h⟩
      · exact ownFault_of_place h
      · cases h

/-! ### Running -/

theorem deadlock_of_runShots [DrawSource σ] {l : Layout R} {n : Nat} {source : σ}
    {counts : List Counts} (h : runShots l n source counts = .error e) :
    ∃ waits, e = .deadlock waits := by
  induction n generalizing source counts with
  | zero => cases h
  | succ n ih =>
    rw [runShots] at h
    split at h
    · next e' hshot =>
      obtain rfl := Except.error.inj h
      rw [runShot] at hshot
      dsimp only at hshot
      split at hshot
      · cases hshot
      · exact ⟨_, (Except.error.inj hshot).symm⟩
    · exact ih h

include hnodup hrunnable in
theorem ownFault_of_run {maxQubits : Nat} {otherwise : UInt64} {config : RunConfig}
    (h : run maxQubits otherwise group config = .error e) : OwnFault e := by
  unfold run simulate at h
  split at h
  · rw [bind_eq_error] at h
    rcases h with h | ⟨l, -, h⟩
    · exact ownFault_of_ofGroup hnodup hrunnable h
    · obtain ⟨waits, rfl⟩ := deadlock_of_runShots h
      exact .deadlock waits
  · obtain rfl := Except.error.inj h
    exact .method config.method

/-! ### Groups with instructions that are not valid -/

/-- The peers that the valid instructions of a group name are in the group. -/
def PeersAtHand (group : List RunRequest) : Prop :=
  ∀ r ∈ group, ∀ i ∈ r.instructions, ∀ s p, i.validate r.numQubits r.numClbits r.id = .ok s →
    i.peer = some p → p ∈ group.map (·.id)

theorem circuitFault_of_checkInstructions {ids : List String} {r : RunRequest}
    {is : List Instruction} (hpeers : ∀ i ∈ is, ∀ s p,
      i.validate r.numQubits r.numClbits r.id = .ok s → i.peer = some p → p ∈ ids)
    (h : Layout.checkInstructions ids r is = .error e) :
    ∃ fault, e = .invalidRequest (.circuit fault) := by
  induction is with
  | nil => cases h
  | cons i rest ih =>
    rw [List.forall_mem_cons] at hpeers
    rw [Layout.checkInstructions] at h
    cases hvalid : i.validate r.numQubits r.numClbits r.id with
    | error fault =>
      rw [hvalid] at h
      exact ⟨fault, (Except.error.inj h).symm⟩
    | ok s =>
      rw [hvalid] at h
      cases hpeer : i.peer with
      | none =>
        rw [hpeer] at h
        exact ih hpeers.2 h
      | some p =>
        have hp : p ∈ ids := hpeers.1 s p hvalid hpeer
        rw [hpeer] at h
        simp only [List.contains_iff_mem.2 hp, if_true] at h
        exact ih hpeers.2 h

theorem circuitFault_of_checkRequests {ids : List String} {rs : List RunRequest}
    (hpeers : ∀ r ∈ rs, ∀ i ∈ r.instructions, ∀ s p,
      i.validate r.numQubits r.numClbits r.id = .ok s → i.peer = some p → p ∈ ids)
    (h : Layout.checkRequests ids rs = .error e) :
    ∃ fault, e = .invalidRequest (.circuit fault) := by
  induction rs with
  | nil => cases h
  | cons r rest ih =>
    rw [List.forall_mem_cons] at hpeers
    rw [Layout.checkRequests] at h
    split at h
    · next e' he =>
      obtain rfl := Except.error.inj h
      exact circuitFault_of_checkInstructions hpeers.1 he
    · exact ih hpeers.2 h

include hnodup in
theorem fault_of_run (hpeers : PeersAtHand group) {maxQubits : Nat} {otherwise : UInt64}
    {config : RunConfig} (h : run maxQubits otherwise group config = .error e) :
    OwnFault e ∨ ∃ fault, e = .invalidRequest (.circuit fault) := by
  cases hcheck : Layout.checkRequests (group.map (·.id)) group with
  | ok u => exact .inl (ownFault_of_run hnodup (Layout.checkRequests_eq_ok.1 hcheck) h)
  | error e' =>
    obtain ⟨fault, rfl⟩ := circuitFault_of_checkRequests hpeers hcheck
    have hgroup : (Layout.ofGroup maxQubits group : Except _ (Layout Float)) =
        .error (.invalidRequest (.circuit fault)) := by
      unfold Layout.ofGroup
      dsimp only
      rw [Names.firstRepeated?_eq_none_iff.2 ⟨hnodup, fun _ _ => List.not_mem_nil⟩]
      dsimp only
      rw [hcheck]
      rfl
    unfold run simulate at h
    split at h
    · rw [hgroup] at h
      exact .inr ⟨fault, (Except.error.inj h).symm⟩
    · exact .inl (Except.error.inj h ▸ .method config.method)

end QuantumRelay.Engine
