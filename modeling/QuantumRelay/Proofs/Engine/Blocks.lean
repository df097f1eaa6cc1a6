import QuantumRelay.Proofs.Statevector.Local
import QuantumRelay.Proofs.Engine.Placement

/-!
# Where circuits are placed

The qubits of the circuit at a place follow those of the circuits before it (`block`), so no two
circuits share a qubit, and the channels come after all of them. A member of a layout carries its
request out from the first qubit of its block on (`Carries`). The operation of a gate acts on the qubits
that the gate is given (`Operation.actsOn_named`), and an action names qubits of its instruction only
(`Action.qubits_ofInstruction`), so the qubits that tasks name are in the block of their circuit
(`Carries.qubit_mem`).
-/

namespace QuantumRelay

variable {R : Type}

namespace Layout

variable {group : List RunRequest} {own other : Nat} {r : RunRequest}

/-! ### Blocks -/

/-- The qubits of the circuit at a place. -/
def block (group : List RunRequest) (own : Nat) : Set Nat :=
  Set.Ico (qubitsOf (group.take own)) (qubitsOf (group.take (own + 1)))

@[simp] theorem qubitsOf_nil : qubitsOf [] = 0 := rfl

@[simp] theorem qubitsOf_cons (r : RunRequest) (rest : List RunRequest) :
    qubitsOf (r :: rest) = r.numQubits.toNat + qubitsOf rest := rfl

theorem qubitsOf_append (group others : List RunRequest) :
    qubitsOf (group ++ others) = qubitsOf group + qubitsOf others := by
  induction group with
  | nil => simp
  | cons r rest ih => simp [ih, Nat.add_assoc]

theorem qubitsOf_take_succ (h : group[own]? = some r) :
    qubitsOf (group.take (own + 1)) = qubitsOf (group.take own) + r.numQubits.toNat := by
  simp [List.take_add_one, h, qubitsOf_append]

theorem qubitsOf_take_le (group : List RunRequest) (own : Nat) :
    qubitsOf (group.take own) ≤ qubitsOf group := by
  have hsplit : qubitsOf group = qubitsOf (group.take own) + qubitsOf (group.drop own) := by
    rw [← qubitsOf_append, List.take_append_drop]
  omega

theorem qubitsOf_take_mono (h : own ≤ other) :
    qubitsOf (group.take own) ≤ qubitsOf (group.take other) := by
  have := qubitsOf_take_le (group.take other) own
  rwa [List.take_take, Nat.min_eq_left h] at this

theorem block_lt {q : Nat} (h : q ∈ block group own) : q < qubitsOf group :=
  h.2.trans_le (qubitsOf_take_le group _)

theorem block_disjoint (h : own ≠ other) : Disjoint (block group own) (block group other) := by
  rw [Set.disjoint_left]
  rintro q ⟨hown, hown'⟩ ⟨hother, hother'⟩
  rcases Nat.lt_or_gt_of_ne h with hlt | hlt
  · have : qubitsOf (group.take (own + 1)) ≤ qubitsOf (group.take other) := qubitsOf_take_mono hlt
    omega
  · have : qubitsOf (group.take (other + 1)) ≤ qubitsOf (group.take own) := qubitsOf_take_mono hlt
    omega

/-! ### Members -/

variable [Scalar R]

/-- A member of a layout carries the request at its place out, on its block. -/
structure Carries (group : List RunRequest) (own : Nat) (r : RunRequest) (m : Member R) : Prop where
  request : group[own]? = some r
  id_eq : m.id = r.id
  numClbits_eq : m.numClbits = r.numClbits.toNat
  instructions_eq : m.tasks.map (·.instruction) = r.instructions
  action_eq : ∀ t ∈ m.tasks,
    Action.ofInstruction (group.map (·.id)) (qubitsOf (group.take own)) t.instruction = .ok t.action
  valid : ∀ t ∈ m.tasks, ∃ s, t.instruction.validate r.numQubits r.numClbits r.id = .ok s
  peer : ∀ t ∈ m.tasks, ∀ p, t.instruction.peer = some p → p ∈ group.map (·.id)

theorem members_of_place {ids : List String} {offset : Nat} {rs : List RunRequest}
    {members : List (Member R)} (h : place ids offset rs = .ok members) {m : Member R}
    (hm : members[own]? = some m) : ∃ r, rs[own]? = some r ∧ m.id = r.id ∧
      m.numClbits = r.numClbits.toNat ∧ m.tasks.map (·.instruction) = r.instructions ∧
      ∀ t ∈ m.tasks, Action.ofInstruction ids (offset + qubitsOf (rs.take own)) t.instruction =
        .ok t.action := by
  induction rs generalizing offset members own with
  | nil =>
    obtain rfl := Except.ok.inj h
    cases hm
  | cons r rest ih =>
    rw [place] at h
    obtain ⟨tasks, htasks, h⟩ := bind_eq_ok.1 h
    obtain ⟨others, hothers, h⟩ := bind_eq_ok.1 h
    obtain rfl := Except.ok.inj h
    cases own with
    | zero =>
      obtain rfl := Option.some.inj hm
      obtain ⟨hmap, hall⟩ := tasksOf_eq_ok htasks
      exact ⟨r, rfl, rfl, rfl, hmap, hall⟩
    | succ own =>
      obtain ⟨q, hq, hid, hclbits, hmap, hall⟩ := ih hothers hm
      refine ⟨q, hq, hid, hclbits, hmap, fun t ht => ?_⟩
      rw [← hall t ht]
      simp [Nat.add_assoc]

theorem blocks_eq {maxQubits : Nat} {l : Layout R} (hl : ofGroup maxQubits group = .ok l) :
    l.blocks = qubitsOf group := by
  obtain ⟨-, -, -, members, -, rfl⟩ := ofGroup_eq_ok.1 hl
  rfl

/-- Every member of a layout carries a request out. -/
theorem exists_carries {maxQubits : Nat} {l : Layout R} (hl : ofGroup maxQubits group = .ok l)
    {m : Member R} (hm : l.members[own]? = some m) : ∃ r, Carries group own r m := by
  obtain ⟨-, hrun, -, members, hplace, rfl⟩ := ofGroup_eq_ok.1 hl
  obtain ⟨r, hr, hid, hclbits, hmap, hall⟩ := members_of_place hplace hm
  have hi : ∀ t ∈ m.tasks, t.instruction ∈ r.instructions := fun t ht =>
    hmap ▸ List.mem_map_of_mem ht
  have hrunnable := hrun r (List.mem_of_getElem? hr)
  refine ⟨r, hr, hid, hclbits, hmap, fun t ht => ?_, fun t ht => (hrunnable _ (hi t ht)).1,
    fun t ht => (hrunnable _ (hi t ht)).2⟩
  rw [← hall t ht, Nat.zero_add]

end Layout

/-! ### Qubits of tasks -/

namespace Operation

/-- If an operation is given by a matrix, this has a row and a column for every basis state. -/
def Square : Operation R → Prop
  | matrix qubits m => hasSide qubits.length m = true
  | _ => True

/-- An operation acts on some qubits, whichever is its target. -/
structure ActsOn (qubits : List Nat) (operation : Operation R) : Prop where
  perm : operation.qubits.Perm qubits
  square : operation.Square

variable [Scalar R]

theorem square_jointRotation? {name : String} {angle : R} {m : List (List (Complex R))}
    (h : jointRotation? name angle = some m) : hasSide 2 m = true := by
  unfold jointRotation? at h
  split at h <;> cases h <;> rfl

theorem actsOn_plain? {name : String} {qubits : List Nat} {params : List R}
    {operation : Operation R} (h : plain? name qubits params = some operation) :
    operation.ActsOn qubits := by
  unfold plain? at h
  split at h
  case h_3 =>
    obtain rfl := Option.some.inj h
    exact ⟨.swap .., trivial⟩
  case h_7 c d t =>
    obtain rfl := Option.some.inj h
    exact ⟨(List.perm_append_comm : ([t] ++ [c, d]).Perm ([c, d] ++ [t])), trivial⟩
  case h_8 c a b =>
    obtain rfl := Option.some.inj h
    exact ⟨(List.perm_append_comm : ([a, b] ++ [c]).Perm ([c] ++ [a, b])), trivial⟩
  case h_9 c d t =>
    obtain rfl := Option.some.inj h
    exact ⟨(List.perm_append_comm : ([t] ++ [c, d]).Perm ([c, d] ++ [t])), trivial⟩
  case h_10 =>
    obtain rfl := Option.some.inj h
    exact ⟨.refl _, rfl⟩
  case h_11 =>
    obtain ⟨g, -, rfl⟩ := Option.map_eq_some_iff.1 h
    exact ⟨.refl _, trivial⟩
  case h_12 =>
    split at h
    · split at h
      · obtain ⟨m, hm, rfl⟩ := Option.map_eq_some_iff.1 h
        exact ⟨.refl _, square_jointRotation? hm⟩
      · cases h
    · obtain ⟨g, -, rfl⟩ := Option.map_eq_some_iff.1 h
      exact ⟨.swap .., trivial⟩
  case h_13 => cases h
  all_goals
    obtain rfl := Option.some.inj h
    exact ⟨.refl _, trivial⟩

theorem actsOn_named {name : String} {qubits : List Nat} {params : List Float} {m : Option Matrix}
    {operation : Operation R} (h : named name qubits params m = .ok operation) :
    operation.ActsOn qubits := by
  unfold named at h
  split at h
  · split at h
    · cases h
    · split at h
      · next rows hside =>
        obtain rfl := Except.ok.inj h
        exact ⟨.refl _, by simpa [Square, hasSide] using hside⟩
      · cases h
  · split at h
    · next hplain =>
      obtain rfl := Except.ok.inj h
      exact actsOn_plain? hplain
    · cases h

end Operation

namespace Action

def qubits : Action R → List Nat
  | apply operation => operation.qubits
  | measure qubit _ => [qubit]
  | reset qubit => [qubit]
  | applyIf control operation => control :: operation.qubits
  | sendBit qubit _ => [qubit]
  | receiveBit _ _ => []
  | applyIfReceived _ operation => operation.qubits
  | loadReceived _ control operation => control :: operation.qubits
  | sendQubit qubit _ => [qubit]
  | receiveQubit qubit _ => [qubit]

variable [Scalar R] {i : Instruction} {peer : Option Nat} {qubits : List Nat} {a : Action R}

/-- What an instruction that is a gate can stand for, given its peer and its qubits. -/
inductive OfGate (i : Instruction) (peer : Option Nat) (qubits : List Nat) : Action R → Prop where
  | apply {name : String} {operation : Operation R}
      (h : Operation.named name qubits i.params i.matrix = .ok operation) :
      OfGate i peer qubits (.apply operation)
  | applyIf {name : String} {control : Nat} {targets : List Nat} {operation : Operation R}
      (hqubits : qubits = control :: targets)
      (h : Operation.named name targets i.params i.matrix = .ok operation) :
      OfGate i peer qubits (.applyIf control operation)
  | applyIfReceived {name : String} {place : Nat} {operation : Operation R}
      (hpeer : peer = some place)
      (h : Operation.named name qubits i.params i.matrix = .ok operation) :
      OfGate i peer qubits (.applyIfReceived place operation)
  | loadReceived {name : String} {place control : Nat} {targets : List Nat}
      {operation : Operation R} (hpeer : peer = some place) (hqubits : qubits = control :: targets)
      (h : Operation.named name targets i.params i.matrix = .ok operation) :
      OfGate i peer qubits (.loadReceived place control operation)

theorem ofGate_cases (h : ofAnyGate i peer qubits = .ok a) : OfGate i peer qubits a := by
  unfold ofAnyGate at h
  split at h
  · unfold ofRemoteGate at h
    split at h
    · obtain ⟨operation, hop, rfl⟩ := map_eq_ok.1 h
      exact .loadReceived rfl rfl hop
    · obtain ⟨operation, hop, rfl⟩ := map_eq_ok.1 h
      exact .applyIfReceived rfl hop
  · cases h
  · unfold ofGate at h
    split at h
    · obtain ⟨operation, hop, rfl⟩ := map_eq_ok.1 h
      exact .applyIf rfl hop
    · obtain ⟨operation, hop, rfl⟩ := map_eq_ok.1 h
      exact .apply hop

theorem OfGate.qubits_mem (h : OfGate i peer qubits a) : ∀ q ∈ a.qubits, q ∈ qubits := by
  cases h with
  | apply hop => exact fun q => (Operation.actsOn_named hop).perm.mem_iff.1
  | applyIf hqubits hop =>
    subst hqubits
    exact fun q => ((Operation.actsOn_named hop).perm.cons _).mem_iff.1
  | applyIfReceived hpeer hop => exact fun q => (Operation.actsOn_named hop).perm.mem_iff.1
  | loadReceived hpeer hqubits hop =>
    subst hqubits
    exact fun q => ((Operation.actsOn_named hop).perm.cons _).mem_iff.1

theorem qubits_ofInstruction {ids : List String} {offset : Nat}
    (h : ofInstruction ids offset i = .ok a) :
    ∀ q ∈ a.qubits, ∃ p ∈ i.qubits, q = offset + p.toNat := by
  suffices hmem : ∀ q ∈ a.qubits, q ∈ i.qubits.map fun q => offset + q.toNat by
    intro q hq
    obtain ⟨p, hp, heq⟩ := List.mem_map.1 (hmem q hq)
    exact ⟨p, hp, heq.symm⟩
  unfold ofInstruction at h
  dsimp only at h
  split at h
  case h_4 =>
    obtain rfl := Except.ok.inj h
    simp [Action.qubits]
  case h_7 => exact (ofGate_cases h).qubits_mem
  all_goals
    obtain rfl := Except.ok.inj h
    simp [Action.qubits, *]

end Action

namespace Layout.Carries

variable [Scalar R] {group : List RunRequest} {own : Nat} {r : RunRequest} {m : Member R}

theorem relay_eq (h : Carries group own r m) {t : Task R} (ht : t ∈ m.tasks) :
    t.action.relayEnd?.map (·.1) = t.instruction.relay := by
  obtain ⟨s, hs⟩ := h.valid t ht
  rw [Action.relayEnd?_ofInstruction (Instruction.validate_eq_ok.1 hs).1 (h.action_eq t ht)]
  have hboth := (Instruction.peer_of_validate hs).1
  cases hrelay : t.instruction.relay with
  | none => rfl
  | some e =>
    rw [hrelay, Option.isSome_some, Option.isSome_iff_exists] at hboth
    obtain ⟨p, hp⟩ := hboth
    have hsome : ((group.map (·.id)).idxOf? p).isSome := by simpa using h.peer t ht p hp
    obtain ⟨place, hplace⟩ := Option.isSome_iff_exists.1 hsome
    simp [hp, hplace]

theorem qubit_mem (h : Carries group own r m) {t : Task R} (ht : t ∈ m.tasks) :
    ∀ q ∈ t.action.qubits, q ∈ block group own := by
  intro q hq
  obtain ⟨p, hp, rfl⟩ := Action.qubits_ofInstruction (h.action_eq t ht) q hq
  obtain ⟨s, hs⟩ := h.valid t ht
  obtain ⟨-, ⟨arity, -, hindices⟩, -⟩ := Instruction.validate_eq_ok.1 hs
  have hlt : p.toNat < r.numQubits.toNat := (Instruction.badIndices?_eq_none_iff.1 hindices).2.2 p hp
  refine ⟨Nat.le_add_right _ _, ?_⟩
  rw [qubitsOf_take_succ h.request]
  omega

end Layout.Carries

end QuantumRelay
