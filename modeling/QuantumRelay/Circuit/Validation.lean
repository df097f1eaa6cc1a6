import QuantumRelay.Circuit.Error
import QuantumRelay.Circuit.Instruction

/-!
# Which instructions a circuit takes

`Instruction.validate` checks an instruction against the catalog and the sizes of the circuit it is
to join, one rule after the other, and reports the first rule that is broken: name, matrix, qubits,
classical bits, parameters, peers.
-/

namespace QuantumRelay

def isPowerOfTwo (n : Nat) : Bool := n == Nat.pow 2 n.log2

def Matrix.qubits (m : Matrix) : Except MatrixFault Nat :=
  if m.length < 2 || !isPowerOfTwo m.length then .error (.side m.length)
  else
    match m.findIdx? fun row => row.length ≠ m.length with
    | some index => .error (.row index ((m[index]?.map (·.length)).getD 0) m.length)
    | none => .ok m.length.log2

/-- The number of qubits of an instruction with this spec, called `label` in errors. -/
def Spec.qubitArity (s : Spec) (label : String) (matrix : Option Matrix) :
    Except CircuitError UInt32 :=
  match s.arity, matrix with
  | .fixed q, none => .ok q
  | .fixed _, some _ => .error (.malformed label .unexpectedMatrix)
  | .ofMatrix _, none => .error (.malformed label .missingMatrix)
  | .ofMatrix extra, some m =>
    match m.qubits with
    | .ok targets =>
      -- No circuit has as many qubits as a matrix acts on that is larger than this.
      if UInt32.size ≤ targets + extra.toNat then
        .error (.malformed label (.invalidMatrix (.side m.length)))
      else .ok (UInt32.ofNat targets + extra)
    | .error fault => .error (.malformed label (.invalidMatrix fault))

def Catalog.lookup (name : String) : Except CircuitError Spec :=
  match Catalog.find? name with
  | some s => .ok s
  | none => .error (.unknownGate name)

namespace Instruction

/-- The first index that is out of range or comes twice, with the broken rule. -/
def badIndex? (available : UInt32) (outOfRange twice : UInt32 → Malformed) (seen : List UInt32) :
    List UInt32 → Option Malformed
  | [] => none
  | q :: rest =>
    if available ≤ q then some (outOfRange q)
    else if seen.contains q then some (twice q)
    else badIndex? available outOfRange twice (q :: seen) rest

/-- The broken rule of a list of indices, which should be `expected` distinct ones. -/
def badIndices? (available expected : UInt32) (count : UInt32 → Nat → Malformed)
    (outOfRange twice : UInt32 → Malformed) (indices : List UInt32) : Option Malformed :=
  if indices.length ≠ expected.toNat then some (count expected indices.length)
  else badIndex? available outOfRange twice [] indices

def badParams? (s : Spec) (params : List Float) : Option Malformed :=
  let count : Option Malformed := match s.paramArity? with
    | some expected =>
      if params.isEmpty then some (.missingParameters expected)
      else if params.length ≠ expected.toNat then some (.parameterCount expected params.length)
      else none
    | none => if params.isEmpty then none else some (.unexpectedParameters params.length)
  count.or ((params.findIdx? fun (p : Float) => !p.isFinite).map .nonFiniteParameter)

/-- The broken rule of the circuits that an instruction of `owner` relays with. -/
def badPeers? (s : Spec) (owner : String) (circuits : List String) : Option Malformed :=
  match s.relay, circuits with
  | some _, [] => some .missingPeer
  | some _, [peer] =>
    if peer.isEmpty then some .missingPeer
    else if peer = owner then some (.selfRelay peer)
    else none
  | some _, peers => some (.peerCount peers.length)
  | none, [] => none
  | none, _ => some .unexpectedPeer

/-- The spec of an instruction that may join the circuit `owner` with so many qubits and classical
bits, or the first rule that it breaks. -/
def validate (i : Instruction) (numQubits numClbits : UInt32) (owner : String) :
    Except CircuitError Spec := do
  let s ← Catalog.lookup i.name
  let arity ← s.qubitArity i.name i.matrix
  let fault :=
    (badIndices? numQubits arity .qubitCount (.qubitOutOfRange · numQubits) .duplicateQubit
      i.qubits)
    |>.or (badIndices? numClbits s.clbits .clbitCount (.clbitOutOfRange · numClbits)
      .duplicateClbit i.clbits)
    |>.or (badParams? s i.params)
    |>.or (badPeers? s owner i.circuits)
  match fault with
  | some reason => .error (.malformed i.name reason)
  | none => .ok s

end Instruction

end QuantumRelay
