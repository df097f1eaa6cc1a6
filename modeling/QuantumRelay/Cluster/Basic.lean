import QuantumRelay.Cluster.Reach
import QuantumRelay.Engine.Run

/-!
# Clusters of simulated units

Requests that reach a unit of a `Cluster` get a ticket, under which they are answered later. One that
runs on its own is run at once. One that runs with its peers is parked under its circuit's id until
every circuit that it reaches through peers is parked too; then the whole group is taken out and run
jointly. A parked request has a timer.

The events of a cluster are the arrival of a message (`receive`), the end of a run (`complete`), the
expiry of a timer (`expire`) and its consequence (`giveUp`), for which the cluster is locked only after
the timer has expired. Between the start and the end of a run, and between an expiry and its consequence,
others may happen.

An arrival is one event, although a request is noted as the last one of its unit under one lock and parked
under another that is taken later. The messages to a unit are taken to come one after the other, and what
goes on at other units neither reads nor changes the note.
-/

namespace QuantumRelay

structure Parked where
  ticket : Nat
  request : RunRequest

/-- When a ticket is no longer waited for. -/
structure ParkTimer where
  ticket : Nat
  circuit : String
  deadline : Nat

structure Cluster where
  maxQubits : Nat := Engine.defaultMaxQubits
  /-- How many seconds a request waits for its peers. -/
  parkTimeout : Nat := 30
  /-- The seed of the next run whose settings give none. -/
  nextSeed : UInt64 := 0
  now : Nat := 0
  nextTicket : Nat := 0
  /-- The requests that wait for their peers, by circuit. -/
  parked : KeyMap Parked := .empty
  /-- The request that each unit had last. -/
  last : KeyMap RunRequest := .empty
  /-- The timers that have not expired, in the order in which they will. -/
  timers : List ParkTimer := []
  /-- The timers that have expired and whose requests are yet to be given up. Nobody listens to what their
  tickets are answered by others. -/
  expired : List ParkTimer := []
  /-- The groups that are being run, each in the order of its circuits. -/
  running : List (List Parked) := []
  answers : List (Nat × Response) := []

namespace Cluster

/-- The circuits that each parked request relays with. -/
def peers (c : Cluster) : KeyMap (List String) := c.parked.map fun p => p.request.peers

def answer? (c : Cluster) (ticket : Nat) : Option Response := c.answers.lookup ticket

def hasExpired (c : Cluster) (ticket : Nat) : Bool := c.expired.any (·.ticket == ticket)

def reply (c : Cluster) (ticket : Nat) (r : Response) : Cluster :=
  if c.hasExpired ticket then c
  else
    { c with
      timers := c.timers.filter (·.ticket ≠ ticket)
      answers := if (c.answer? ticket).isSome then c.answers else c.answers ++ [(ticket, r)] }

def replyError (c : Cluster) (ticket : Nat) (e : SimulationError) : Cluster :=
  c.reply ticket (.ofError e.message)

/-! ### Runs -/

/-- The answers to a group that is run with the settings of its first request. -/
def responses (c : Cluster) (group : List RunRequest) (elapsed : Float) : List Response :=
  let config := (group.head?.map (·.config)).getD {}
  match Engine.run c.maxQubits c.nextSeed group config with
  | .ok counts => counts.map fun k => .ofCounts k.map elapsed
  | .error e => group.map fun _ => .ofError e.message

/-- End the run at a place among those under way, after `elapsed` seconds, and answer its members. -/
def complete (c : Cluster) (place : Nat) (elapsed : Float) : Cluster :=
  match c.running[place]? with
  | none => c
  | some group =>
    let answers := group.zip (c.responses (group.map (·.request)) elapsed)
    answers.foldl (fun c (p, r) => c.reply p.ticket r)
      { c with running := c.running.eraseIdx place, nextSeed := c.nextSeed + 1 }

/-! ### Arrivals -/

/-- Drop what is parked under a circuit. Its ticket is answered that the run was abandoned. -/
def evict (c : Cluster) (circuit : String) : Cluster :=
  match c.parked.find? circuit with
  | none => c
  | some old =>
    { c with parked := c.parked.erase circuit }.replyError old.ticket
      (.invalidRequest (.abandoned circuit))

def park (c : Cluster) (ticket : Nat) (r : RunRequest) : Cluster :=
  let c := c.evict r.id
  { c with parked := c.parked.insert r.id ⟨ticket, r⟩ }

def start (c : Cluster) (group : List String) : Cluster :=
  { c with
    parked := group.foldl (fun m id => m.erase id) c.parked
    running := c.running ++ [group.filterMap c.parked.find?] }

/-- A request to be run with its peers: the group of its circuit is started if it is complete;
otherwise a timer is set. -/
def join (c : Cluster) (ticket : Nat) (r : RunRequest) : Cluster :=
  let c := c.park ticket r
  if (Reach.missing c.peers r.id).isEmpty then c.start (Reach.group c.peers r.id)
  else { c with timers := c.timers ++ [⟨ticket, r.id, c.now + c.parkTimeout⟩] }

def accept (c : Cluster) (unit : String) (ticket : Nat) (r : RunRequest) : Cluster :=
  let c := { c with last := c.last.insert unit r }
  match r.execType with
  | .dynamic => c.join ticket r
  | .offloading =>
    match r.instructions.find? (·.relay.isSome) with
    | some i => c.replyError ticket (.invalidRequest (.needsPeers r.id i.name))
    | none => { c with running := c.running ++ [[⟨ticket, r⟩]] }

def rebound (c : Cluster) (unit : String) (u : ParameterUpdate) :
    Except SimulationError RunRequest :=
  match (c.last.find? unit).filter (·.id == u.id) with
  | none => .error (.parameters (.notLoaded u.id unit))
  | some r =>
    match Parameters.bind r.id r.instructions u.params with
    | .error e => .error (.parameters (.circuit e))
    | .ok instructions => .ok { r with instructions }

/-- A message that reaches a unit; gives its ticket. -/
def receive (c : Cluster) (unit : String) (m : Message) : Nat × Cluster :=
  let ticket := c.nextTicket
  let c := { c with nextTicket := ticket + 1 }
  match m with
  | .run r => (ticket, c.accept unit ticket r)
  | .update u =>
    match c.rebound unit u with
    | .error e => (ticket, c.replyError ticket e)
    | .ok r => (ticket, c.accept unit ticket r)

/-! ### Time -/

/-- A timer expires. -/
def expire (c : Cluster) (t : ParkTimer) : Cluster :=
  { c with
    timers := c.timers.filter (·.ticket ≠ t.ticket)
    expired := c.expired ++ [t] }

/-- The request of a timer that has expired is given up: its ticket is answered with the circuits that
are missing now, and its circuit is no longer parked, whoever has parked it. -/
def giveUp (c : Cluster) (t : ParkTimer) : Cluster :=
  let missing := Reach.missing c.peers t.circuit
  ({ c with expired := c.expired.filter (·.ticket ≠ t.ticket) }.replyError t.ticket
    (.peerTimeout t.circuit missing)).evict t.circuit

end Cluster

end QuantumRelay
