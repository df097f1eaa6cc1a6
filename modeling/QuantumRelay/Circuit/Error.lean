import QuantumRelay.Circuit.Catalog
import QuantumRelay.Circuit.Register

/-!
# What can be wrong with a circuit

Each cause is a constructor that keeps what the cause is about; `message` is its wording.
-/

namespace QuantumRelay

inductive MatrixFault where
  /-- The number of rows is no power of two from two on. -/
  | side (rows : Nat)
  | row (index entries rows : Nat)
deriving DecidableEq, Repr

def MatrixFault.message : MatrixFault → String
  | .side rows => s!"side length {rows} is not a power of two >= 2"
  | .row index entries rows => s!"row {index} has {entries} entries, expected {rows}"

inductive Malformed where
  | qubitCount (expected : UInt32) (got : Nat)
  | clbitCount (expected : UInt32) (got : Nat)
  | qubitOutOfRange (qubit available : UInt32)
  | clbitOutOfRange (clbit available : UInt32)
  | duplicateQubit (qubit : UInt32)
  | duplicateClbit (clbit : UInt32)
  | missingParameters (expected : UInt32)
  | unexpectedParameters (got : Nat)
  | parameterCount (expected : UInt32) (got : Nat)
  | nonFiniteParameter (index : Nat)
  | missingMatrix
  | unexpectedMatrix
  | invalidMatrix (fault : MatrixFault)
  | missingPeer
  | peerCount (got : Nat)
  | unexpectedPeer
  | selfRelay (circuit : String)
deriving DecidableEq, Repr

def Malformed.message : Malformed → String
  | .qubitCount expected got => s!"expected {expected} qubits, got {got}"
  | .clbitCount expected got => s!"expected {expected} classical bits, got {got}"
  | .qubitOutOfRange qubit available =>
    s!"qubit q{qubit} is out of range (circuit has {available} qubits)"
  | .clbitOutOfRange clbit available =>
    s!"classical bit c{clbit} is out of range (circuit has {available} classical bits)"
  | .duplicateQubit qubit => s!"duplicate qubit q{qubit}"
  | .duplicateClbit clbit => s!"duplicate classical bit c{clbit}"
  | .missingParameters expected => s!"missing parameters (expected {expected})"
  | .unexpectedParameters got => s!"gate takes no parameters, got {got}"
  | .parameterCount expected got => s!"expected {expected} parameters, got {got}"
  | .nonFiniteParameter index => s!"parameter #{index} is not finite"
  | .missingMatrix => "missing matrix"
  | .unexpectedMatrix => "gate does not take a matrix"
  | .invalidMatrix fault => s!"invalid matrix: {fault.message}"
  | .missingPeer => "relay instruction names no peer circuit"
  | .peerCount got => s!"relay instruction names {got} peer circuits, expected exactly one"
  | .unexpectedPeer => "local instruction cannot name peer circuits"
  | .selfRelay circuit => s!"relay instruction names its own circuit '{circuit}'"

inductive SnapshotFault where
  /-- A register breaks the count of indices. -/
  | misplaced (kind : RegisterKind) (register : String) (index : UInt32) (expected : Nat)
  /-- The registers hold another number of indices than the snapshot declares. -/
  | coverage (kind : RegisterKind) (covered : Nat) (declared : UInt32)
  | repeatedRegister (kind : RegisterKind) (register : String)
  | emptyId
deriving DecidableEq, Repr

def SnapshotFault.message : SnapshotFault → String
  | .misplaced kind register index expected =>
    s!"{kind.name} register '{register}' has index {index}, expected {expected}"
  | .coverage kind covered declared =>
    s!"{kind.name} registers cover {covered} indices but the circuit declares {declared}"
  | .repeatedRegister kind register => s!"duplicate {kind.name} register '{register}'"
  | .emptyId => "empty circuit id"

inductive RelayFault where
  /-- The circuit it names is not in the batch. -/
  | absent
  /-- The circuit it names never sends it a value of this kind. -/
  | neverSends (kind : RelayKind)
deriving DecidableEq, Repr

def RelayFault.message : RelayFault → String
  | .absent => "which is not in the batch"
  | .neverSends kind => s!"which never sends it a {kind.name}"

inductive CircuitError where
  | unknownGate (name : String)
  | malformed (gate : String) (reason : Malformed)
  | unresolvedRelay (circuit : String) (position : Nat) (gate peer : String) (lack : RelayFault)
  | danglingSend (circuit : String) (position : Nat) (gate peer : String)
  | duplicateCircuit (circuit : String)
  | parameterMismatch (circuit : String) (expected got : Nat)
  | invalidSnapshot (fault : SnapshotFault)
  /-- A text is not the document it should be. -/
  | unreadable
  | registerOverflow (kind : RegisterKind) (name : String) (size : UInt32)
  /-- No error of a circuit but the end of the program: there is no 32-bit integer to go on counting. -/
  | stopped
deriving DecidableEq, Repr

def CircuitError.message : CircuitError → String
  | .unknownGate name => s!"Unknown gate '{name}'"
  | .malformed gate reason => s!"Malformed instruction '{gate}': {reason.message}"
  | .unresolvedRelay circuit position gate peer lack =>
    s!"Unresolved relay in circuit '{circuit}': instruction #{position} ('{gate}') " ++
      s!"expects peer '{peer}', {lack.message}"
  | .danglingSend circuit position gate peer =>
    s!"Dangling send in circuit '{circuit}': instruction #{position} ('{gate}') " ++
      s!"targets '{peer}' but nothing in the batch receives it"
  | .duplicateCircuit circuit => s!"Duplicate circuit id '{circuit}' in batch"
  | .parameterMismatch circuit expected got =>
    s!"Circuit '{circuit}' takes {expected} parameters, got {got}"
  | .invalidSnapshot fault => s!"Invalid snapshot: {fault.message}"
  | .unreadable => "Serialization error"
  | .registerOverflow kind name size =>
    s!"{kind.name} register '{name}' of size {size} overflows the index space"
  | .stopped => "attempt to add with overflow"

end QuantumRelay
