import QuantumRelay.Exchange.Message
import QuantumRelay.Directory
import QuantumRelay.Notice

/-!
# Networks and sessions

A network carries messages to sockets. Sending hands out a ticket at once; waiting on the ticket gives
the `Delivery` that the exchange came to. What a network is made of is left open, so all that is said
of jobs holds for any behaviour of the other side. A `Session` is a network together with what a
client has beside it: whether exchanges may be started, the time, and the notices so far.
-/

namespace QuantumRelay

inductive Delivery where
  | answer (raw : Json)
  | broken (endpoint reason : String)
  /-- The task of the exchange ended without saying anything. -/
  | died (reason : String)

/-- A carrier of messages whose state is `ω`. -/
class Network (ω : Type) where
  /-- Send a message to a socket; gives a ticket for its exchange. -/
  send : ω → Nat → Message → Nat × ω
  /-- Wait until the exchange of a ticket is over. -/
  receive : ω → Nat → Delivery × ω

/-- A network and what a client has beside it. -/
structure Session (ω : Type) where
  network : ω
  isOpen : Bool := true
  now : Nat := 0
  notices : List Notice := []

namespace Session

variable {ω : Type}

def note (w : Session ω) (l : List Notice) : Session ω := { w with notices := w.notices ++ l }

/-- Start an exchange, which needs an open session. -/
def send [Network ω] (w : Session ω) (e : Endpoint) (m : Message) :
    Except ConfigurationFault (Nat × Session ω) :=
  if w.isOpen then
    let (ticket, network) := Network.send w.network e.socket m
    .ok (ticket, { w with network })
  else .error .closedSession

/-- Wait for the end of an exchange. -/
def receive [Network ω] (w : Session ω) (ticket : Nat) : Delivery × Session ω :=
  let (delivery, network) := Network.receive w.network ticket
  (delivery, { w with network })

end Session

end QuantumRelay
