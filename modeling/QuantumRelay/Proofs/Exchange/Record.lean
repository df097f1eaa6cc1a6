import QuantumRelay.Exchange.Network

/-!
# Recorded networks

`Recorded ω` is a network that does what the network below it does and writes down every message that
is sent and every delivery that is received. What a client has sent is read off that record
(`Recorded.sent`), so it needs no assumption about the network below.
-/

namespace QuantumRelay

inductive Passage where
  | sent (socket : Nat) (m : Message) (ticket : Nat)
  | received (ticket : Nat) (delivery : Delivery)

def Passage.sent? : Passage → Option (Nat × Message)
  | .sent socket m _ => some (socket, m)
  | .received .. => none

/-- A network and what has passed, oldest first. -/
structure Recorded (ω : Type) where
  network : ω
  record : List Passage := []

namespace Recorded

variable {ω : Type}

def sent (r : Recorded ω) : List (Nat × Message) := r.record.filterMap (·.sent?)

theorem sent_of_record {a b : Recorded ω} (h : a.record = b.record) : a.sent = b.sent := by
  rw [sent, sent, h]

theorem sent_of_record_append {a b : Recorded ω} {socket : Nat} {m : Message} {ticket : Nat}
    (h : a.record = b.record ++ [.sent socket m ticket]) : a.sent = b.sent ++ [(socket, m)] := by
  rw [sent, h, List.filterMap_append]
  rfl

variable [Network ω]

instance : Network (Recorded ω) where
  send r socket m :=
    let (ticket, network) := Network.send r.network socket m
    (ticket, ⟨network, r.record ++ [.sent socket m ticket]⟩)
  receive r ticket :=
    let (delivery, network) := Network.receive r.network ticket
    (delivery, ⟨network, r.record ++ [.received ticket delivery]⟩)

theorem record_send (r : Recorded ω) (socket : Nat) (m : Message) :
    (Network.send r socket m).2.record =
      r.record ++ [.sent socket m (Network.send r socket m).1] := rfl

theorem record_receive (r : Recorded ω) (ticket : Nat) :
    (Network.receive r ticket).2.record =
      r.record ++ [.received ticket (Network.receive r ticket).1] := rfl

theorem sent_send (r : Recorded ω) (socket : Nat) (m : Message) :
    (Network.send r socket m).2.sent = r.sent ++ [(socket, m)] :=
  sent_of_record_append (record_send ..)

end Recorded

namespace Session

variable {ω : Type} [Network ω] {w : Session ω}

/-- A session after a message was sent. -/
def sending (w : Session ω) (e : Endpoint) (m : Message) : Session ω :=
  { w with network := (Network.send w.network e.socket m).2 }

def ticket (w : Session ω) (e : Endpoint) (m : Message) : Nat :=
  (Network.send w.network e.socket m).1

theorem send_of_isOpen (h : w.isOpen = true) (e : Endpoint) (m : Message) :
    w.send e m = .ok (w.ticket e m, w.sending e m) := if_pos h

theorem send_of_closed (h : w.isOpen = false) (e : Endpoint) (m : Message) :
    w.send e m = .error .closedSession := by
  unfold send
  rw [h]
  rfl

end Session

end QuantumRelay
