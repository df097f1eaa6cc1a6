import QuantumRelay.Engine.Layout
import QuantumRelay.Engine.Mail

/-!
# Shots

A `Shot` is one run of a group under way: the joint state, the classical bits of each circuit, the
mail, and the source of draws. `Action.perform?` is one step of one circuit; it gives nothing, and
so changes nothing, while the circuit has to wait for a letter.
-/

namespace QuantumRelay

structure Shot (σ R : Type) where
  state : Statevector (Complex R)
  /-- The classical bits of each circuit, in group order. -/
  clbits : List (List Bool)
  bits : Mail Bool := {}
  channels : Mail Nat := {}
  /-- The first channel that has not been used. -/
  nextChannel : Nat
  source : σ

namespace Shot

variable {σ R : Type} [Scalar R]

def start (l : Layout R) (source : σ) : Shot σ R :=
  { state := .zero l.width
    clbits := l.members.map fun m => List.replicate m.numClbits false
    nextChannel := l.blocks
    source }

def apply (s : Shot σ R) (operation : Operation R) : Shot σ R :=
  { s with state := operation.apply s.state }

def swap (s : Shot σ R) (left right : Nat) : Shot σ R :=
  { s with state := s.state.swap left right }

def write (s : Shot σ R) (own clbit : Nat) (b : Bool) : Shot σ R :=
  { s with clbits := s.clbits.modify own (·.set clbit b) }

variable [DrawSource σ]

def measure (s : Shot σ R) (qubit : Nat) : Bool × Shot σ R :=
  let (outcome, state, source) := s.state.measure qubit s.source
  (outcome, { s with state, source })

def reset (s : Shot σ R) (qubit : Nat) : Shot σ R :=
  let (state, source) := s.state.reset qubit s.source
  { s with state, source }

end Shot

/-- What an action of the circuit at place `own` makes of a shot; nothing while it has to wait. -/
def Action.perform? {σ R : Type} [Scalar R] [DrawSource σ] (own : Nat) (s : Shot σ R) :
    Action R → Option (Shot σ R)
  | apply operation => some (s.apply operation)
  | measure qubit clbit =>
    let (outcome, s) := s.measure qubit
    some (s.write own clbit outcome)
  | reset qubit => some (s.reset qubit)
  | applyIf control operation =>
    let (outcome, s) := s.measure control
    some (if outcome then s.apply operation else s)
  | sendBit qubit peer =>
    let (outcome, s) := s.measure qubit
    some { s with bits := s.bits.post own peer outcome }
  | receiveBit clbit peer =>
    (s.bits.take? peer own).map fun (b, bits) => { s with bits }.write own clbit b
  | applyIfReceived peer operation =>
    (s.bits.take? peer own).map fun (b, bits) =>
      let s := { s with bits }
      if b then s.apply operation else s
  | loadReceived peer control operation =>
    (s.bits.take? peer own).map fun (b, bits) =>
      let s := { s with bits }.reset control
      if b then (s.apply (.flipIf [] control)).apply operation else s
  | sendQubit qubit peer =>
    let channel := s.nextChannel
    some { s.swap qubit channel with
      channels := s.channels.post own peer channel, nextChannel := channel + 1 }
  | receiveQubit qubit peer =>
    (s.channels.take? peer own).map fun (channel, channels) =>
      ({ s with channels }.reset qubit).swap qubit channel

end QuantumRelay
