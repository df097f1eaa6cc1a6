/-!
# The catalog of instructions

`Catalog.find?` gives the `Spec` of an instruction name: how many qubits, parameters and classical
bits it takes, whether it is conditional, and whether it relays to another circuit. Every name is a
row of `Catalog.table`, or `c_if_` or `d_c_if_` followed by a row that is a unitary gate:

* `c_if_g` applies `g` if a measurement of one more qubit, the first, reads one;
* `d_c_if_g` applies `g` if a bit relayed from another circuit is one. For the matrix gate the bit
  is loaded into one more qubit, the first.
-/

namespace QuantumRelay

inductive RelayKind where
  /-- A measurement outcome. -/
  | classical
  /-- The state of a qubit. -/
  | quantum
deriving DecidableEq, Repr

inductive RelayRole where
  | send
  | receive
deriving DecidableEq, Repr

structure Relay where
  kind : RelayKind
  role : RelayRole
deriving DecidableEq, Repr

def RelayKind.name : RelayKind → String
  | .classical => "classical-relay"
  | .quantum => "quantum-relay"

def RelayRole.name : RelayRole → String
  | .send => "send"
  | .receive => "receive"

namespace Relay

def isSend (r : Relay) : Bool := r.role = .send

def isReceive (r : Relay) : Bool := r.role = .receive

end Relay

inductive Arity where
  | fixed (qubits : UInt32)
  /-- As many as the matrix acts on, and `extra` controls before them. -/
  | ofMatrix (extra : UInt32)
deriving DecidableEq, Repr

def Arity.plus (n : UInt32) : Arity → Arity
  | .fixed q => .fixed (q + n)
  | .ofMatrix extra => .ofMatrix (extra + n)

structure Spec where
  arity : Arity
  params : UInt32
  clbits : UInt32
  /-- Whether it is a unitary gate, which may be made conditional. -/
  unitary : Bool
  conditional : Bool
  relay : Option Relay
deriving DecidableEq, Repr

namespace Spec

def gate (qubits params : UInt32) : Spec := ⟨.fixed qubits, params, 0, true, false, none⟩

def ofMatrix : Spec := ⟨.ofMatrix 0, 0, 0, true, false, none⟩

def nonUnitary (qubits clbits : UInt32) : Spec := ⟨.fixed qubits, 0, clbits, false, false, none⟩

def relayEnd (qubits clbits : UInt32) (kind : RelayKind) (role : RelayRole) : Spec :=
  ⟨.fixed qubits, 0, clbits, false, false, some ⟨kind, role⟩⟩

def paramArity? (s : Spec) : Option UInt32 := if 0 < s.params then some s.params else none

def isDistributed (s : Spec) : Bool := s.relay.isSome

def takesMatrix (s : Spec) : Bool :=
  match s.arity with
  | .ofMatrix _ => true
  | .fixed _ => false

end Spec

namespace Catalog

def conditionalStem : String := "c_if_"

/-- What the names of remotely conditional instructions start with. -/
def remoteStem : String := "d_c_if_"

def unitaryName : String := "unitary"

def table : List (String × Spec) := [
  ("id", .gate 1 0), ("x", .gate 1 0), ("y", .gate 1 0), ("z", .gate 1 0), ("h", .gate 1 0),
  ("s", .gate 1 0), ("sdg", .gate 1 0), ("t", .gate 1 0), ("tdg", .gate 1 0), ("sx", .gate 1 0),
  ("sxdg", .gate 1 0),
  ("rx", .gate 1 1), ("ry", .gate 1 1), ("rz", .gate 1 1), ("p", .gate 1 1), ("u2", .gate 1 2),
  ("r", .gate 1 2), ("u", .gate 1 3), ("u3", .gate 1 3),
  ("cx", .gate 2 0), ("cy", .gate 2 0), ("cz", .gate 2 0), ("ch", .gate 2 0), ("swap", .gate 2 0),
  ("iswap", .gate 2 0), ("ecr", .gate 2 0), ("crx", .gate 2 1), ("cry", .gate 2 1),
  ("crz", .gate 2 1), ("cp", .gate 2 1), ("rxx", .gate 2 1), ("ryy", .gate 2 1),
  ("rzz", .gate 2 1), ("rzx", .gate 2 1), ("cu", .gate 2 4),
  ("ccx", .gate 3 0), ("cswap", .gate 3 0), ("ccz", .gate 3 0),
  (unitaryName, .ofMatrix),
  ("measure", .nonUnitary 1 1), ("reset", .nonUnitary 1 0),
  ("measure_and_send", .relayEnd 1 0 .classical .send),
  ("recv", .relayEnd 0 1 .classical .receive),
  ("qsend", .relayEnd 1 0 .quantum .send),
  ("qrecv", .relayEnd 1 0 .quantum .receive)]

/-- What is left of a name after a stem, if it starts with it. -/
def afterStem? (stem name : String) : Option String :=
  (stem.toList.isPrefixOf? name.toList).map String.ofList

def findUnitary? (base : String) : Option Spec := (table.lookup base).filter (·.unitary)

/-- The spec of a gate made conditional on a measurement of one more qubit. -/
def conditionalOf (s : Spec) : Spec := { s with arity := s.arity.plus 1, conditional := true }

/-- The spec of a gate made conditional on a relayed bit. -/
def remoteOf (s : Spec) : Spec :=
  { s with
    arity := match s.arity with
      | .ofMatrix extra => .ofMatrix (extra + 1)
      | .fixed q => .fixed q
    conditional := true
    relay := some ⟨.classical, .receive⟩ }

def find? (name : String) : Option Spec :=
  match table.lookup name with
  | some s => some s
  | none =>
    match afterStem? remoteStem name with
    | some base => (findUnitary? base).map remoteOf
    | none =>
      match afterStem? conditionalStem name with
      | some base => (findUnitary? base).map conditionalOf
      | none => none

def contains (name : String) : Bool := (find? name).isSome

/-- A name without the stem that makes it conditional. -/
def baseName (name : String) : String :=
  ((afterStem? remoteStem name).orElse fun _ => afterStem? conditionalStem name).getD name

def baseNames : List String := table.map (·.1)

/-- The names of the unitary gates of the table, which have conditional variants. -/
def unitaryNames : List String := (table.filter (·.2.unitary)).map (·.1)

end Catalog

end QuantumRelay
