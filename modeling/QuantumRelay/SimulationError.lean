import QuantumRelay.Circuit.Error
import QuantumRelay.Settings.Run

/-!
# What can go wrong in a simulation

Causes of failure of a simulated run, of a group of circuits or in a cluster, and their wording.
-/

namespace QuantumRelay

structure Wait where
  circuit : String
  gate : String
  peer : String
deriving DecidableEq, Repr

def Wait.message (w : Wait) : String := s!"'{w.circuit}' waits at {w.gate} from '{w.peer}'"

/-- Why a request is not one that a simulator takes. -/
inductive RequestFault where
  | repeatedCircuit (circuit : String)
  | circuit (e : CircuitError)
  /-- A matrix is not square or of another side than its qubits ask for. -/
  | matrixShape (qubits : Nat)
  /-- A circuit that relays was sent to run on its own. -/
  | needsPeers (circuit gate : String)
  /-- Another request took the place of one that was waiting. -/
  | abandoned (circuit : String)
deriving DecidableEq, Repr

def RequestFault.message : RequestFault → String
  | .repeatedCircuit id => s!"circuit '{id}' appears twice in one run"
  | .circuit e => e.message
  | .matrixShape qubits => s!"matrix does not act on {qubits} qubits"
  | .needsPeers id gate => s!"'{id}' needs dynamic execution for '{gate}'"
  | .abandoned id => s!"run of '{id}' was abandoned"

/-- Why new parameters are refused. -/
inductive UpdateFault where
  /-- The unit does not have the circuit. -/
  | notLoaded (circuit unit : String)
  | circuit (e : CircuitError)
deriving DecidableEq, Repr

def UpdateFault.message : UpdateFault → String
  | .notLoaded id unit => s!"no circuit '{id}' loaded on {unit}"
  | .circuit e => e.message

inductive SimulationError where
  | invalidRequest (fault : RequestFault)
  | unsupportedMethod (m : Method)
  | unsupportedInstruction (name : String)
  | tooManyQubits (needed limit : Nat)
  /-- A circuit relays with one outside the run. -/
  | unknownPeer (circuit peer : String)
  /-- Every circuit that has not finished waits. -/
  | deadlock (waits : List Wait)
  | parameters (fault : UpdateFault)
  /-- Circuits that a waiting one relays with never came. -/
  | peerTimeout (circuit : String) (missing : List String)
deriving DecidableEq, Repr

def SimulationError.message : SimulationError → String
  | .invalidRequest fault => s!"invalid request: {fault.message}"
  | .unsupportedMethod m => s!"method '{m.name}' is not supported by the statevector simulator"
  | .unsupportedInstruction name => s!"unsupported instruction '{name}'"
  | .tooManyQubits needed limit => s!"{needed} qubits needed, limit is {limit}"
  | .unknownPeer circuit peer =>
    s!"circuit '{circuit}' relays with '{peer}', which is not part of this run"
  | .deadlock waits => "deadlock: " ++ String.intercalate ", " (waits.map (·.message))
  | .parameters fault => s!"parameter update rejected: {fault.message}"
  | .peerTimeout circuit missing =>
    s!"timed out waiting for peers of '{circuit}': " ++ String.intercalate ", " missing

end QuantumRelay
