import QuantumRelay.Circuit.Parameters
import QuantumRelay.Circuit.Register

/-!
# Snapshots

A `Snapshot` is a circuit as it is stored and sent. It claims no more than its fields: whether it
describes a circuit at all is decided by `Circuit.ofSnapshot`.
-/

namespace QuantumRelay

/-- A circuit as it is stored and sent. -/
structure Snapshot where
  id : String
  instructions : List Instruction
  numQubits : UInt32
  numClbits : UInt32
  quantumRegisters : List Register
  classicalRegisters : List Register
  isParametric : Bool
  isDistributed : Bool
deriving BEq, Inhabited

namespace Snapshot

def parameters (s : Snapshot) : List Float := Parameters.collect s.instructions

def withParameters (s : Snapshot) (values : List Float) : Except CircuitError Snapshot := do
  let instructions ← Parameters.bind s.id s.instructions values
  pure { s with instructions }

/-- The circuits it relays with, in instruction order and with repetitions. -/
def peers (s : Snapshot) : List String := s.instructions.filterMap (·.peer)

def hasRelay (s : Snapshot) : Bool := s.instructions.any (·.relay.isSome)

def fieldNames : List String :=
  ["id", "instructions", "num_qubits", "num_clbits", "quantum_registers", "classical_registers",
    "is_parametric", "is_distributed"]

def toJson (s : Snapshot) : Json :=
  .object [
    ("id", .text s.id),
    ("instructions", .array (s.instructions.map (·.toJson))),
    ("num_qubits", .ofWord32 s.numQubits),
    ("num_clbits", .ofWord32 s.numClbits),
    ("quantum_registers", .array (s.quantumRegisters.map (·.toJson))),
    ("classical_registers", .array (s.classicalRegisters.map (·.toJson))),
    ("is_parametric", .bool s.isParametric),
    ("is_distributed", .bool s.isDistributed)]

def ofJson? (j : Json) : Option Snapshot := do
  let r ← j.record? .isOpen fieldNames
  some { id := ← r.required "id" Json.text?
         instructions := ← r.required "instructions" (Json.items? Instruction.ofJson?)
         numQubits := ← r.required "num_qubits" Json.word32?
         numClbits := ← r.required "num_clbits" Json.word32?
         quantumRegisters := ← r.required "quantum_registers" (Json.items? Register.ofJson?)
         classicalRegisters := ← r.required "classical_registers" (Json.items? Register.ofJson?)
         isParametric := ← r.required "is_parametric" Json.bool?
         isDistributed := ← r.required "is_distributed" Json.bool? }

end Snapshot

end QuantumRelay
