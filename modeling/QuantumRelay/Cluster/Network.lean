import QuantumRelay.Cluster.Basic
import QuantumRelay.Exchange.Network

/-!
# A cluster as a network

The units of a cluster are endpoints, and a cluster is a network in which nothing takes time but
waiting: what a message starts is carried out at once, and the clock moves only when the answer that
is wanted cannot come before a timer expires. Then it jumps to that timer.
-/

namespace QuantumRelay.Cluster

def groupLabel : String := "local"

def unitId (k : Nat) : String := s!"qpu-{k}"

def endpoint (maxQubits : Nat) (k : Nat) : Endpoint :=
  { id := unitId k
    address := s!"local://{unitId k}"
    backend := .statevector (unitId k) (UInt32.ofNat (min maxQubits (UInt32.size - 1)))
    group := some groupLabel
    socket := k }

def endpoints (c : Cluster) (units : Nat) : List Endpoint :=
  (List.range units).map (endpoint c.maxQubits)

def directory (units : List Endpoint) : Directory :=
  units.foldl (fun d e => d.insert e.id ⟨e.address, e.backend, e.group⟩) {}

def completeAll (c : Cluster) : Cluster := c.running.foldl (fun c _ => c.complete 0 0) c

/-- Let time pass until a ticket is answered; `pending` are the timers that have not expired. Timers
of one deadline expire together. -/
def await (ticket : Nat) (c : Cluster) : List ParkTimer → Cluster
  | [] => { c with timers := [] }
  | t :: pending =>
    if (c.answer? ticket).isSome && c.now < t.deadline then { c with timers := t :: pending }
    else await ticket (({ c with now := max c.now t.deadline }.expire t).giveUp t) pending

instance : Network Cluster where
  send c socket m :=
    let (ticket, c) := c.receive (unitId socket) m
    (ticket, c.completeAll)
  receive c ticket :=
    let c := if (c.answer? ticket).isSome then c else c.await ticket c.timers
    match c.answer? ticket with
    | some r => (.answer r.toJson, c)
    | none => (.died "never answered", c)

end QuantumRelay.Cluster
