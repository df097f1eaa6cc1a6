import QuantumRelay.Circuit.Validation
import QuantumRelay.Exchange.Message
import QuantumRelay.Names
import QuantumRelay.Statevector.Operation

/-!
# Laying a group out on one state

A group of requests shares one state: the qubits of the circuits side by side in group order, then
one channel qubit for every quantum send. `Layout.ofGroup` checks that the group can be run and turns
every instruction into a `Task`, an `Action` on the joint state in which peers are places in the
group.

Nothing here bounds the width of a state but `maxQubits`. Indices of amplitudes fit a machine word only
while that is less than 64, which is what `accepted_runs` asks for.
-/

namespace QuantumRelay

/-- What an instruction does to a group that runs. -/
inductive Action (R : Type) where
  | apply (operation : Operation R)
  | measure (qubit clbit : Nat)
  | reset (qubit : Nat)
  | applyIf (control : Nat) (operation : Operation R)
  /-- Measure a qubit and send the outcome. -/
  | sendBit (qubit peer : Nat)
  | receiveBit (clbit peer : Nat)
  | applyIfReceived (peer : Nat) (operation : Operation R)
  /-- Receive a bit into a qubit and apply an operation if it is one. -/
  | loadReceived (peer control : Nat) (operation : Operation R)
  | sendQubit (qubit peer : Nat)
  | receiveQubit (qubit peer : Nat)

structure Task (R : Type) where
  instruction : Instruction
  action : Action R

structure Member (R : Type) where
  id : String
  numClbits : Nat
  tasks : List (Task R)

/-- A group laid out on one state. -/
structure Layout (R : Type) where
  members : List (Member R)
  /-- How many qubits the circuits have together; the channels come after them. -/
  blocks : Nat
  channels : Nat

namespace Action

variable {R : Type} [Scalar R]

/-- A gate, conditional on a measurement of its first qubit if its name says so. -/
def ofGate (i : Instruction) (qubits : List Nat) : Except SimulationError (Action R) :=
  match Catalog.afterStem? Catalog.conditionalStem i.name, qubits with
  | some base, control :: targets =>
    (Operation.named base targets i.params i.matrix).map (.applyIf control)
  | _, targets => (Operation.named i.name targets i.params i.matrix).map .apply

/-- A gate conditional on a bit from a peer. -/
def ofRemoteGate (i : Instruction) (base : String) (peer : Nat) (qubits : List Nat) :
    Except SimulationError (Action R) :=
  match base == Catalog.unitaryName, qubits with
  | true, control :: targets =>
    (Operation.named base targets i.params i.matrix).map (.loadReceived peer control)
  | _, targets => (Operation.named base targets i.params i.matrix).map (.applyIfReceived peer)

/-- A gate, conditional on a bit from the peer if its name says so. -/
def ofAnyGate (i : Instruction) (peer : Option Nat) (qubits : List Nat) :
    Except SimulationError (Action R) :=
  match Catalog.afterStem? Catalog.remoteStem i.name, peer with
  | some base, some p => ofRemoteGate i base p qubits
  | some _, none => .error (.unsupportedInstruction i.name)
  | none, _ => ofGate i qubits

/-- The action of an instruction whose circuit starts at qubit `offset` of a group with these
circuit ids. -/
def ofInstruction (ids : List String) (offset : Nat) (i : Instruction) :
    Except SimulationError (Action R) :=
  let qubits := i.qubits.map fun q => offset + q.toNat
  let peer := i.peer.bind (ids.idxOf? ·)
  match i.name, peer, qubits, i.clbits with
  | "measure", _, [q], [c] => .ok (.measure q c.toNat)
  | "reset", _, [q], _ => .ok (.reset q)
  | "measure_and_send", some p, [q], _ => .ok (.sendBit q p)
  | "recv", some p, _, [c] => .ok (.receiveBit c.toNat p)
  | "qsend", some p, [q], _ => .ok (.sendQubit q p)
  | "qrecv", some p, [q], _ => .ok (.receiveQubit q p)
  | _, peer, qubits, _ => ofAnyGate i peer qubits

end Action

namespace Layout

variable {R : Type}

def width (l : Layout R) : Nat := l.blocks + l.channels

/-- Check instructions of a request against its circuit and the ids of its group. -/
def checkInstructions (ids : List String) (r : RunRequest) :
    List Instruction → Except SimulationError Unit
  | [] => .ok ()
  | i :: rest =>
    match i.validate r.numQubits r.numClbits r.id with
    | .error e => .error (.invalidRequest (.circuit e))
    | .ok _ =>
      match i.peer with
      | none => checkInstructions ids r rest
      | some peer =>
        if ids.contains peer then checkInstructions ids r rest
        else .error (.unknownPeer r.id peer)

def checkRequests (ids : List String) : List RunRequest → Except SimulationError Unit
  | [] => .ok ()
  | r :: rest =>
    match checkInstructions ids r r.instructions with
    | .error e => .error e
    | .ok () => checkRequests ids rest

def quantumSends (r : RunRequest) : Nat := r.instructions.countP (·.name == "qsend")

def qubitsOf (group : List RunRequest) : Nat :=
  (group.map (·.numQubits.toNat)).foldr (· + ·) 0

/-- The channel qubits that a group takes. -/
def channelsOf (group : List RunRequest) : Nat := (group.map quantumSends).foldr (· + ·) 0

def tasksOf [Scalar R] (ids : List String) (offset : Nat) :
    List Instruction → Except SimulationError (List (Task R))
  | [] => .ok []
  | i :: rest => do
    let action ← Action.ofInstruction ids offset i
    pure (⟨i, action⟩ :: (← tasksOf ids offset rest))

def place [Scalar R] (ids : List String) (offset : Nat) :
    List RunRequest → Except SimulationError (List (Member R))
  | [] => .ok []
  | r :: rest => do
    let tasks ← tasksOf ids offset r.instructions
    pure (⟨r.id, r.numClbits.toNat, tasks⟩ :: (← place ids (offset + r.numQubits.toNat) rest))

/-- Lay a group out on at most `maxQubits` qubits. -/
def ofGroup [Scalar R] (maxQubits : Nat) (group : List RunRequest) :
    Except SimulationError (Layout R) :=
  let ids := group.map (·.id)
  match Names.firstRepeated? [] ids with
  | some id => .error (.invalidRequest (.repeatedCircuit id))
  | none => do
    checkRequests ids group
    let blocks := qubitsOf group
    let channels := channelsOf group
    if maxQubits < blocks + channels then
      .error (.tooManyQubits (blocks + channels) maxQubits)
    else
      let members ← place ids 0 group
      pure { members, blocks, channels }

end Layout

end QuantumRelay
