import QuantumRelay.Circuit.Basic

/-!
# Building circuits step by step

One operation per kind of instruction. Each makes the instruction and leaves it to
`Circuit.addInstruction` to take or refuse it.
-/

namespace QuantumRelay.Circuit

def gate (c : Circuit) (name : String) (qubits : List UInt32) (params : List Float) :
    Except CircuitError Circuit :=
  c.addInstruction { name, qubits, params }

def unitary (c : Circuit) (matrix : Matrix) (qubits : List UInt32) : Except CircuitError Circuit :=
  c.addInstruction { name := Catalog.unitaryName, qubits, matrix := some matrix }

def measure (c : Circuit) (qubit clbit : UInt32) : Except CircuitError Circuit :=
  c.addInstruction { name := "measure", qubits := [qubit], clbits := [clbit] }

def measureAll (c : Circuit) : Except CircuitError Extension :=
  if c.numQubits = 0 then .ok ⟨c, "", []⟩
  else do
    let extended ← c.addRegister .classical "meas" c.numQubits
    let measurements := (List.range c.numQubits.toNat).map fun k =>
      ({ name := "measure", qubits := [UInt32.ofNat k]
         clbits := [c.numClbits + UInt32.ofNat k] } : Instruction)
    pure { extended with circuit := ← extended.circuit.addInstructions measurements }

/-- Apply a gate to `targets` if a measurement of `control` reads one. -/
def gateIf (c : Circuit) (name : String) (control : UInt32) (targets : List UInt32)
    (params : List Float) : Except CircuitError Circuit :=
  c.addInstruction { name := Catalog.conditionalStem ++ name, qubits := control :: targets, params }

/-- Apply a matrix to `targets` if a measurement of `control` reads one. -/
def unitaryIf (c : Circuit) (matrix : Matrix) (control : UInt32) (targets : List UInt32) :
    Except CircuitError Circuit :=
  c.addInstruction
    { name := Catalog.conditionalStem ++ Catalog.unitaryName
      qubits := control :: targets, matrix := some matrix }

def measureAndSend (c : Circuit) (qubit : UInt32) (peer : String) : Except CircuitError Circuit :=
  c.addInstruction { name := "measure_and_send", qubits := [qubit], circuits := [peer] }

def receiveBit (c : Circuit) (clbit : UInt32) (peer : String) : Except CircuitError Circuit :=
  c.addInstruction { name := "recv", qubits := [], clbits := [clbit], circuits := [peer] }

/-- Apply a gate to `targets` if the outcome relayed from `peer` is one. -/
def gateIfRemote (c : Circuit) (name : String) (targets : List UInt32) (params : List Float)
    (peer : String) : Except CircuitError Circuit :=
  c.addInstruction
    { name := Catalog.remoteStem ++ name, qubits := targets, params, circuits := [peer] }

/-- Load the outcome relayed from `peer` into `control`, and apply a matrix to `targets` if it is
one. -/
def unitaryIfRemote (c : Circuit) (matrix : Matrix) (control : UInt32) (targets : List UInt32)
    (peer : String) : Except CircuitError Circuit :=
  c.addInstruction
    { name := Catalog.remoteStem ++ Catalog.unitaryName
      qubits := control :: targets, matrix := some matrix, circuits := [peer] }

def sendQubit (c : Circuit) (qubit : UInt32) (peer : String) : Except CircuitError Circuit :=
  c.addInstruction { name := "qsend", qubits := [qubit], circuits := [peer] }

def receiveQubit (c : Circuit) (qubit : UInt32) (peer : String) : Except CircuitError Circuit :=
  c.addInstruction { name := "qrecv", qubits := [qubit], circuits := [peer] }

end QuantumRelay.Circuit
