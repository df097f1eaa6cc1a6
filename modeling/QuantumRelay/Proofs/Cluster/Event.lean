import QuantumRelay.Cluster.Basic

/-!
# What happens to a cluster

An `Event` is one thing that happens to a cluster: a message arrives, a run ends, a timer expires, the
request of a timer that has expired is given up, or time passes. `after` is the state that a list of events
leads to, and `Admits` says that each of them could happen when it did: a run that ends was under way, and a
timer that expires was set and due. Nothing else is asked of the order, so all interleavings are covered.
What every event keeps holds of all states that are reached (`Admits.keeps`).

`arrivals` are the requests that have come to be run together with their peers.
-/

namespace QuantumRelay.Cluster

/-- What can happen to a cluster. -/
inductive Event where
  | arrive (unit : String) (m : Message)
  /-- The run at a place among those under way ends. -/
  | finish (place : Nat) (elapsed : Float)
  | expire (t : ParkTimer)
  /-- The request of a timer that has expired is given up. -/
  | giveUp (t : ParkTimer)
  | pass (seconds : Nat)

def next (c : Cluster) : Event → Cluster
  | .arrive unit m => (c.receive unit m).2
  | .finish place elapsed => c.complete place elapsed
  | .expire t => c.expire t
  | .giveUp t => c.giveUp t
  | .pass seconds => { c with now := c.now + seconds }

def Enabled (c : Cluster) : Event → Prop
  | .arrive _ _ => True
  | .finish place _ => place < c.running.length
  | .expire t => t ∈ c.timers ∧ t.deadline ≤ c.now
  | .giveUp t => t ∈ c.expired
  | .pass _ => True

def after (c : Cluster) (es : List Event) : Cluster := es.foldl next c

def Admits (c : Cluster) : List Event → Prop
  | [] => True
  | e :: es => c.Enabled e ∧ (c.next e).Admits es

def fresh (maxQubits parkTimeout : Nat) (seed : UInt64) : Cluster :=
  { maxQubits, parkTimeout, nextSeed := seed }

@[simp] theorem after_nil (c : Cluster) : c.after [] = c := rfl

@[simp] theorem after_cons (c : Cluster) (e : Event) (es : List Event) :
    c.after (e :: es) = (c.next e).after es := rfl

theorem after_append (c : Cluster) (es more : List Event) :
    c.after (es ++ more) = (c.after es).after more := List.foldl_append

theorem admits_append {c : Cluster} {es more : List Event} :
    c.Admits (es ++ more) ↔ c.Admits es ∧ (c.after es).Admits more := by
  induction es generalizing c with
  | nil => simp [Admits]
  | cons e es ih => simp only [List.cons_append, Admits, after_cons, ih, and_assoc]

theorem Admits.keeps {P : Cluster → Prop} (hstep : ∀ c e, P c → c.Enabled e → P (c.next e))
    {c : Cluster} {es : List Event} (h : c.Admits es) (hc : P c) : P (c.after es) := by
  induction es generalizing c with
  | nil => exact hc
  | cons e es ih => exact ih h.2 (hstep c e hc h.1)

/-! ### Arrivals -/

/-- The request that a message makes a unit run, if it is one. -/
def admitted? (c : Cluster) (unit : String) : Message → Option RunRequest
  | .run r => some r
  | .update u => (c.rebound unit u).toOption

/-- The request that a message makes a unit run together with its peers. -/
def joining? (c : Cluster) (unit : String) (m : Message) : Option RunRequest :=
  (c.admitted? unit m).filter (·.execType = .dynamic)

/-- The request that an event brings to be run together with its peers, with its ticket. -/
def arrival? (c : Cluster) : Event → Option Parked
  | .arrive unit m => (c.joining? unit m).map (⟨c.nextTicket, ·⟩)
  | _ => none

/-- The requests that events bring to be run together with their peers. -/
def arrivals (c : Cluster) : List Event → List Parked
  | [] => []
  | e :: es => (c.arrival? e).toList ++ (c.next e).arrivals es

theorem arrivals_append (c : Cluster) (es more : List Event) :
    c.arrivals (es ++ more) = c.arrivals es ++ (c.after es).arrivals more := by
  induction es generalizing c with
  | nil => rfl
  | cons e es ih => rw [List.cons_append, arrivals, ih, arrivals, List.append_assoc, after_cons]

theorem eq_arrive_of_arrival {c : Cluster} {e : Event} {q : Parked} (h : c.arrival? e = some q) :
    ∃ unit m, e = .arrive unit m ∧ c.joining? unit m = some q.request ∧ q.ticket = c.nextTicket := by
  cases e with
  | arrive unit m =>
    obtain ⟨r, hr, rfl⟩ := Option.map_eq_some_iff.1 h
    exact ⟨unit, m, rfl, hr, rfl⟩
  | finish place elapsed => cases h
  | expire t => cases h
  | giveUp t => cases h
  | pass seconds => cases h

theorem receive_of_joining {c : Cluster} {unit : String} {m : Message} {r : RunRequest}
    (h : c.joining? unit m = some r) : (c.receive unit m).2 =
      { c with nextTicket := c.nextTicket + 1, last := c.last.insert unit r }.join c.nextTicket r := by
  obtain ⟨hadmitted, hdynamic⟩ := Option.filter_eq_some_iff.1 h
  have hexec : r.execType = .dynamic := of_decide_eq_true hdynamic
  have haccept (c : Cluster) (ticket : Nat) : c.accept unit ticket r =
      { c with last := c.last.insert unit r }.join ticket r := by
    unfold accept
    simp only [hexec]
  unfold receive
  cases m with
  | run r' =>
    obtain rfl := Option.some.inj hadmitted
    exact haccept ..
  | update u =>
    have hrebound : c.rebound unit u = .ok r := by
      cases hu : c.rebound unit u with
      | error e => simp [admitted?, hu, Except.toOption] at hadmitted
      | ok r' => simpa [admitted?, hu, Except.toOption] using hadmitted
    have hrebound' : { c with nextTicket := c.nextTicket + 1 }.rebound unit u = .ok r := hrebound
    simp only [hrebound']
    exact haccept ..

/-- What a message that is not to be run with peers makes of a cluster: a run of its own, or an answer
at once. -/
def AnsweredAlone (c c' : Cluster) : Prop :=
  ∃ last, (∃ r, c' = { c with
      nextTicket := c.nextTicket + 1
      last
      running := c.running ++ [[⟨c.nextTicket, r⟩]] }) ∨
    ∃ response, c' = { c with nextTicket := c.nextTicket + 1, last }.reply c.nextTicket response

theorem accept_of_offloading (c : Cluster) (unit : String) {r : RunRequest}
    (h : r.execType = .offloading) :
    c.AnsweredAlone ({ c with nextTicket := c.nextTicket + 1 }.accept unit c.nextTicket r) := by
  unfold accept
  simp only [h]
  refine ⟨c.last.insert unit r, ?_⟩
  split
  · exact .inr ⟨_, rfl⟩
  · exact .inl ⟨r, rfl⟩

theorem receive_of_alone {c : Cluster} {unit : String} {m : Message} (h : c.joining? unit m = none) :
    c.AnsweredAlone (c.receive unit m).2 := by
  have hexec {r : RunRequest} (hr : c.admitted? unit m = some r) : r.execType = .offloading := by
    rw [joining?, hr, Option.filter_some] at h
    cases he : r.execType with
    | offloading => rfl
    | dynamic => simp [he] at h
  unfold receive
  cases m with
  | run r => exact accept_of_offloading c unit (hexec rfl)
  | update u =>
    cases hu : c.rebound unit u with
    | error e =>
      have hu' : { c with nextTicket := c.nextTicket + 1 }.rebound unit u = .error e := hu
      simp only [hu']
      exact ⟨c.last, .inr ⟨_, rfl⟩⟩
    | ok r =>
      have hu' : { c with nextTicket := c.nextTicket + 1 }.rebound unit u = .ok r := hu
      simp only [hu']
      exact accept_of_offloading c unit (hexec (by rw [admitted?, hu]; rfl))

end QuantumRelay.Cluster
