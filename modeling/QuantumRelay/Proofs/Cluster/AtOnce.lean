import QuantumRelay.Proofs.Cluster.Alone
import QuantumRelay.Proofs.Cluster.Timeout
import QuantumRelay.Proofs.Cluster.Update

/-!
# Running alone, with or without peers to wait for

A request that relays with nobody may be sent to be run on its own or together with its peers. Either way
it is run at once, in whatever state the cluster is, and it is answered the same (`run_at_once`). What is
parked stays parked, unless it is under the circuit of the request.

The unit keeps the request as it was sent, so it also keeps which of the two it was. Of two clusters that
differ in nothing else, new parameters then drop what is parked under the circuit in one of them only
(`kept_as_sent`).
-/

namespace QuantumRelay.Cluster

variable {c : Cluster} {unit : String} {q : RunRequest} {t : ExecType} {n : UInt64}

/-- What a request to a unit comes to that is run at once and gives `outcome`, if it makes `c'` of the
cluster `c`. -/
structure AtOnce (c c' : Cluster) (unit : String) (q : RunRequest)
    (outcome : Except SimulationError Counts) : Prop where
  /-- The unit keeps the request as the one that it had last; the others keep what they had. -/
  stored : c'.last = c.last.insert unit q
  /-- It is being run, and nobody with it. -/
  taken : c'.running = c.running ++ [[⟨c.nextTicket, q⟩]]
  /-- It is not parked, -/
  unparked : ∀ id p, c'.parked.find? id = some p → p.ticket ≠ c.nextTicket
  /-- and no timer is set for it. -/
  untimed : ∀ timer ∈ c'.timers, timer.ticket ≠ c.nextTicket
  /-- It is answered the outcome if the run ends, -/
  ends : ∀ elapsed, (c'.complete c.running.length elapsed).answer? c.nextTicket =
    some (.ofOutcome outcome elapsed)
  /-- and whatever happens, it is answered nothing else, nor left without an answer and a run. -/
  answered : ∀ es, c'.Admits es →
    ([⟨c.nextTicket, q⟩] ∈ (c'.after es).running ∧ (c'.after es).answer? c.nextTicket = none) ∨
      ∃ elapsed, (c'.after es).answer? c.nextTicket = some (.ofOutcome outcome elapsed)
  /-- What is parked stays so if it is not under the same circuit. -/
  parked : c.parked.find? q.id = none → c'.parked = c.parked

theorem outcomeOf_alone (maxQubits : Nat) (otherwise : UInt64) (hseed : q.config.seed = some n)
    (t : ExecType) (ticket : Nat) :
    Engine.outcomeOf maxQubits otherwise (requests [⟨ticket, q.runAs t⟩])
        (configOf (requests [⟨ticket, q.runAs t⟩])) (q.runAs t).id =
      Engine.outcomeOf maxQubits n [q] q.config q.id := by
  show Engine.outcomeOf maxQubits otherwise ([q].map (RunRequest.runAs t)) q.config q.id = _
  rw [Engine.outcomeOf_runAs, ← Engine.outcomeOf_getD, hseed]
  rfl

theorem alone_runAs (h : q.Alone) (t : ExecType) : (q.runAs t).Alone := ⟨h.relay, h.peers⟩

theorem answer?_complete_alone {place ticket : Nat} (hplace : c.running[place]? = some [⟨ticket, q⟩])
    (hopen : c.answer? ticket = none) (hexpired : c.hasExpired ticket = false) (elapsed : Float) :
    (c.complete place elapsed).answer? ticket = some (.ofOutcome (Engine.outcomeOf c.maxQubits
      c.nextSeed (requests [⟨ticket, q⟩]) (configOf (requests [⟨ticket, q⟩])) q.id) elapsed) := by
  have hnodup : (circuits [⟨ticket, q⟩]).Nodup := List.nodup_singleton _
  rw [answer?_complete hplace, hopen, hexpired, Option.none_or, outcomes_eq c hnodup]
  simp

/-- Whatever has happened to a cluster, a request with a seed that relays with nobody is run at once, and
it comes to the same whether it is sent to be run on its own or together with its peers. -/
theorem run_at_once {maxQubits parkTimeout : Nat} {seed : UInt64} {es : List Event}
    (hes : (fresh maxQubits parkTimeout seed).Admits es) (unit : String) (halone : q.Alone)
    (hseed : q.config.seed = some n) :
    let c := (fresh maxQubits parkTimeout seed).after es
    ∀ t, ∃ c', c.receive unit (.run (q.runAs t)) = (c.nextTicket, c') ∧
      AtOnce c c' unit (q.runAs t) (Engine.outcomeOf maxQubits n [q] q.config q.id) := by
  intro c t
  have hsound : Sound c c.nextTicket := sound_after hes
  have hq : (q.runAs t).Alone := alone_runAs halone t
  have hadmitted : c.admitted? unit (.run (q.runAs t)) = some (q.runAs t) := rfl
  have hreceive := receive_eq_of_alone hadmitted hq
  have hopen := answer?_receive_of_sound hsound hadmitted hq
  have hqubits (es' : List Event) :
      ((fresh maxQubits parkTimeout seed).after es').maxQubits = maxQubits := maxQubits_after ..
  rw [hreceive] at hopen
  refine ⟨_, hreceive, ?_⟩
  constructor
  case stored => rfl
  case taken => rfl
  case unparked =>
    intro id p hp
    exact hsound.fresh_ticket.2.1 (find?_of_makeRoom hp)
  case untimed =>
    intro timer htimer
    exact Nat.ne_of_lt (hsound.timer_lt (timers_makeRoom c _ htimer))
  case ends =>
    intro elapsed
    have hplace : (c.running ++ [[⟨c.nextTicket, q.runAs t⟩]])[c.running.length]? =
        some [⟨c.nextTicket, q.runAs t⟩] := by simp
    have hexpired := (hasExpired_makeRoom c (q.runAs t) _).trans hsound.fresh_ticket.2.2.2
    rw [answer?_complete_alone hplace hopen hexpired, outcomeOf_alone _ _ hseed]
    dsimp only
    rw [maxQubits_makeRoom, hqubits]
  case answered =>
    intro later hlater
    have hnext : c.next (.arrive unit (.run (q.runAs t))) = _ := congrArg Prod.snd hreceive
    have hadmits : (fresh maxQubits parkTimeout seed).Admits
        (es ++ .arrive unit (.run (q.runAs t)) :: later) :=
      admits_append.2 ⟨hes, trivial, hnext ▸ hlater⟩
    have hcarried := carried_of_alone hadmits rfl hadmitted hq
    rw [Carried, hqubits, after_append, after_cons, hnext] at hcarried
    obtain ⟨hrunning, hnone⟩ | ⟨otherwise, elapsed, hanswer⟩ := hcarried
    · exact .inl ⟨hrunning, (hnone _ List.mem_cons_self trivial).1⟩
    · have hmine := hanswer _ List.mem_cons_self trivial
      rw [outcomeOf_alone _ _ hseed] at hmine
      exact .inr ⟨elapsed, hmine⟩
  case parked =>
    intro hnone
    show (c.makeRoom (q.runAs t)).parked = c.parked
    rw [makeRoom_of_none hnone]

/-- A request that flips a qubit and measures it, to be run on its own. -/
def flipRequest : RunRequest where
  id := "a"
  config := { seed := some 5, shots := 20 }
  instructions := [{ name := "x", qubits := [0] },
    { name := "measure", qubits := [0], clbits := [0] }]
  execType := .offloading
  numQubits := 1
  numClbits := 1

theorem alone_flipRequest : flipRequest.Alone := ⟨by decide, by decide⟩

/-- A circuit that waits for another one, and one that waits for the flipped qubit. -/
def waitingForFlip : List Event :=
  [.arrive "qpu-1" (.run (sendsTo "b" ["c"])), .arrive "qpu-2" (.run (sendsTo "d" ["a"]))]

/-- The qubit is flipped at once, and whoever waits for it goes on waiting. -/
theorem flip_at_once :
    let c := (fresh 24 30 0).after waitingForFlip
    c.parked.keys = ["b", "d"] ∧ ∀ t, ∃ c',
      c.receive "qpu-0" (.run (flipRequest.runAs t)) = (2, c') ∧ c'.parked = c.parked ∧
        AtOnce c c' "qpu-0" (flipRequest.runAs t)
          (Engine.outcomeOf 24 5 [flipRequest] flipRequest.config "a") := by
  have hadmits : (fresh 24 30 0).Admits waitingForFlip := by simp [waitingForFlip, Admits, Enabled]
  have hkeys : ((fresh 24 30 0).after waitingForFlip).parked.keys = ["b", "d"] := by cbv
  have hnone : ((fresh 24 30 0).after waitingForFlip).parked.find? "a" = none := by cbv
  have hticket : ((fresh 24 30 0).after waitingForFlip).nextTicket = 2 := by cbv
  refine ⟨hkeys, fun t => ?_⟩
  obtain ⟨c', hreceive, honce⟩ := run_at_once hadmits "qpu-0" alone_flipRequest rfl t
  exact ⟨c', hticket ▸ hreceive, honce.parked hnone, honce⟩

/-- The flip is asked for, and a second circuit of its name comes and waits. -/
def flipThenWait (t : ExecType) : List Event :=
  [.arrive "qpu-0" (.run (flipRequest.runAs t)), .arrive "qpu-1" (.run (sendsTo "a" ["b"]))]

def again : Event := .arrive "qpu-0" (.update ⟨"a", []⟩)

/-- The unit keeps two different requests, and it shows: the circuit that waits is dropped as the flip is
asked for again if it was to be run with its peers the first time, and else goes on waiting. -/
theorem kept_as_sent :
    flipRequest.Alone ∧ flipRequest.config.seed = some 5 ∧
    (((fresh 24 30 0).receive "qpu-0" (.run (flipRequest.runAs .offloading))).2.last.find? "qpu-0").map
        (·.execType) = some .offloading ∧
    (((fresh 24 30 0).receive "qpu-0" (.run (flipRequest.runAs .dynamic))).2.last.find? "qpu-0").map
        (·.execType) = some .dynamic ∧
    (((fresh 24 30 0).after (flipThenWait .offloading)).next again).answer? 1 = none ∧
    (((fresh 24 30 0).after (flipThenWait .dynamic)).next again).answer? 1 =
      some (.ofError (SimulationError.invalidRequest (.abandoned "a")).message) := by
  refine ⟨alone_flipRequest, rfl, rfl, by cbv, ?_, ?_⟩
  · have hadmitted : ((fresh 24 30 0).after (flipThenWait .offloading)).admitted? "qpu-0"
        (.update ⟨"a", []⟩) = some (flipRequest.runAs .offloading) := by cbv
    rw [again, next, receive_eq_of_alone hadmitted (alone_runAs alone_flipRequest _)]
    cbv
  · have hadmitted : ((fresh 24 30 0).after (flipThenWait .dynamic)).admitted? "qpu-0"
        (.update ⟨"a", []⟩) = some (flipRequest.runAs .dynamic) := by cbv
    have hparked : ((fresh 24 30 0).after (flipThenWait .dynamic)).parked.find? "a" =
        some ⟨1, sendsTo "a" ["b"]⟩ := by cbv
    have hopen : ((fresh 24 30 0).after (flipThenWait .dynamic)).answer? 1 = none := by cbv
    rw [again, next, receive_eq_of_alone hadmitted (alone_runAs alone_flipRequest _)]
    show (((fresh 24 30 0).after (flipThenWait .dynamic)).evict "a").answer? 1 = _
    have hlistened : ((fresh 24 30 0).after (flipThenWait .dynamic)).hasExpired 1 = false := by cbv
    rw [answer?_evict, hparked, hopen, hlistened]
    rfl

end QuantumRelay.Cluster
