import QuantumRelay.Circuit.Snapshot
import QuantumRelay.Names
import QuantumRelay.Notice

/-!
# Resolving a batch

Every receive of a batch has to be fed by a send of the same kind in the circuit that it names.
`Resolution.ofBatch` matches the declared ends, nothing else: it never looks at the order of
instructions. The declared ends of a batch are `(source, sink, kind)` triples, once as the sends
say and once as the receives say; edges are the triples that receives declare, each once, and a send
that no receive matches is dangling.
-/

namespace QuantumRelay

/-- A circuit that relays a value of some kind to another one. -/
structure Edge where
  source : String
  sink : String
  kind : RelayKind
deriving DecidableEq, Repr

/-- A send that nothing in the batch receives. -/
structure DanglingSend where
  circuit : String
  position : Nat
  gate : String
  peer : String
deriving DecidableEq, Repr

inductive DanglingPolicy where
  /-- They are reported beside the edges. -/
  | report
  /-- The first one is an error. -/
  | refuse
deriving DecidableEq, Repr

/-- A relay end that a circuit of a batch declares, and where it stands. -/
structure RelayEnd where
  edge : Edge
  position : Nat
  gate : String
deriving DecidableEq, Repr

structure Resolution where
  circuits : List String
  /-- What depends on what, in the order in which receives declare it. -/
  edges : List Edge
  danglingSends : List DanglingSend
deriving DecidableEq, Repr

namespace Resolution

/-- The end of one role that an instruction of `own` declares. -/
def declaredEdge? (role : RelayRole) (own : String) (i : Instruction) : Option Edge :=
  match i.relay, i.peer with
  | some relay, some peer =>
    if relay.role = role then
      some (match role with
        | .send => ⟨own, peer, relay.kind⟩
        | .receive => ⟨peer, own, relay.kind⟩)
    else none
  | _, _ => none

def endsOf (role : RelayRole) (s : Snapshot) : List RelayEnd :=
  s.instructions.zipIdx.filterMap fun (i, position) =>
    (declaredEdge? role s.id i).map fun edge => ⟨edge, position, i.name⟩

/-- The ends of one role in a batch, in batch order and then instruction order. -/
def ends (role : RelayRole) (batch : List Snapshot) : List RelayEnd := batch.flatMap (endsOf role)

/-- What a receive lacks, given the circuits of the batch and what its sends declare. -/
def lack? (ids : List String) (sent : List Edge) (e : RelayEnd) : Option RelayFault :=
  if !ids.contains e.edge.source then some .absent
  else if !sent.contains e.edge then some (.neverSends e.edge.kind)
  else none

def unresolved? (ids : List String) (sent : List Edge) (receives : List RelayEnd) :
    Option CircuitError :=
  receives.findSome? fun e => (lack? ids sent e).map fun lack =>
    .unresolvedRelay e.edge.sink e.position e.gate e.edge.source lack

/-- Edges without repetitions, each where it first stands. -/
def distinct (seen : List Edge) : List Edge → List Edge
  | [] => []
  | e :: rest => if seen.contains e then distinct seen rest else e :: distinct (e :: seen) rest

def dangling (received : List Edge) (sends : List RelayEnd) : List DanglingSend :=
  (sends.filter fun e => !received.contains e.edge).map fun e =>
    ⟨e.edge.source, e.position, e.gate, e.edge.sink⟩

/-- Resolve a batch: repeated ids are reported first, then receives, then sends. -/
def ofBatch (policy : DanglingPolicy) (batch : List Snapshot) : Except CircuitError Resolution :=
  let ids := batch.map (·.id)
  match Names.firstRepeated? [] ids with
  | some id => .error (.duplicateCircuit id)
  | none =>
    let sends := ends .send batch
    let receives := ends .receive batch
    let received := receives.map (·.edge)
    match unresolved? ids (sends.map (·.edge)) receives with
    | some e => .error e
    | none =>
      match policy, dangling received sends with
      | .refuse, d :: _ => .error (.danglingSend d.circuit d.position d.gate d.peer)
      | _, danglingSends => .ok ⟨ids, distinct [] received, danglingSends⟩

def isDistributed (r : Resolution) : Bool := !r.edges.isEmpty || !r.danglingSends.isEmpty

def incoming (r : Resolution) (circuit : String) : List Edge := r.edges.filter (·.sink == circuit)

/-- The edges as pairs of positions in the batch. -/
def indexedEdges (r : Resolution) : List (Nat × Nat × RelayKind) :=
  r.edges.map fun e => (r.circuits.idxOf e.source, r.circuits.idxOf e.sink, e.kind)

def notices (r : Resolution) : List Notice := r.danglingSends.map fun _ => .danglingSend

end Resolution

end QuantumRelay
