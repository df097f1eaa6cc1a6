import QuantumRelay.Cluster.Basic
import QuantumRelay.Proofs.Engine.Outcome
import Mathlib.Data.List.Nodup

/-!
# What the operations of a cluster do

The effect of every operation on a cluster, field by field: what is parked and running, which timers
are set or have expired, and who is answered. An answer is given once, and not by others once the timer
of the ticket has expired (`answer?_reply`). A request that is to be run with its peers first takes the
place of any other of its circuit (`find?_park`); then it waits, or a group is taken out (`find?_start`).
The end of a run answers those of its members whose timers have not expired (`answer?_complete`). A
request that is given up is answered, and what is parked under its circuit is dropped (`answer?_giveUp`).
-/

namespace QuantumRelay.Cluster

/-! ### Answers -/

theorem lookup_append_singleton {α : Type} (l : List (Nat × α)) (key k : Nat) (v : α) :
    (l ++ [(k, v)]).lookup key = (l.lookup key).or (if key = k then some v else none) := by
  rw [List.lookup_append, List.lookup_cons]
  by_cases h : key = k
  · simp [h]
  · simp [h, beq_eq_false_iff_ne.2 h]

section reply

variable (c : Cluster) (ticket : Nat) (r : Response)

theorem hasExpired_iff : c.hasExpired ticket = true ↔ ∃ t ∈ c.expired, t.ticket = ticket := by
  simp [hasExpired]

@[simp] theorem reply_parked : (c.reply ticket r).parked = c.parked := by unfold reply; split <;> rfl
@[simp] theorem reply_running : (c.reply ticket r).running = c.running := by unfold reply; split <;> rfl
@[simp] theorem reply_expired : (c.reply ticket r).expired = c.expired := by unfold reply; split <;> rfl
@[simp] theorem reply_last : (c.reply ticket r).last = c.last := by unfold reply; split <;> rfl
@[simp] theorem reply_now : (c.reply ticket r).now = c.now := by unfold reply; split <;> rfl

@[simp] theorem reply_nextTicket : (c.reply ticket r).nextTicket = c.nextTicket := by
  unfold reply
  split <;> rfl

@[simp] theorem reply_maxQubits : (c.reply ticket r).maxQubits = c.maxQubits := by
  unfold reply
  split <;> rfl

@[simp] theorem reply_parkTimeout : (c.reply ticket r).parkTimeout = c.parkTimeout := by
  unfold reply
  split <;> rfl

@[simp] theorem hasExpired_reply (other : Nat) :
    (c.reply ticket r).hasExpired other = c.hasExpired other := by
  rw [hasExpired, reply_expired, hasExpired]

variable {c ticket} in
theorem reply_of_expired (h : c.hasExpired ticket = true) : c.reply ticket r = c := by
  rw [reply, if_pos h]

variable {c ticket} in
theorem reply_of_unexpired (h : c.hasExpired ticket = false) : c.reply ticket r =
    { c with
      timers := c.timers.filter (·.ticket ≠ ticket)
      answers := if (c.answer? ticket).isSome then c.answers else c.answers ++ [(ticket, r)] } := by
  rw [reply, if_neg (by simp [h])]

theorem mem_reply_timers {t : ParkTimer} : t ∈ (c.reply ticket r).timers ↔
    t ∈ c.timers ∧ (c.hasExpired ticket = false → t.ticket ≠ ticket) := by
  cases h : c.hasExpired ticket with
  | true => simp [reply_of_expired r h]
  | false => simp [reply_of_unexpired r h]

theorem answer?_reply (other : Nat) : (c.reply ticket r).answer? other = (c.answer? other).or
    (if other = ticket ∧ c.hasExpired ticket = false then some r else none) := by
  cases hexpired : c.hasExpired ticket with
  | true => simp [reply_of_expired r hexpired]
  | false =>
    rw [reply_of_unexpired r hexpired]
    unfold answer?
    simp only [and_true]
    by_cases h : (c.answers.lookup ticket).isSome = true
    · rw [if_pos h]
      by_cases ho : other = ticket
      · obtain ⟨old, hold⟩ := Option.isSome_iff_exists.1 h
        rw [ho, hold, Option.some_or]
      · rw [if_neg ho, Option.or_none]
    · rw [if_neg h, lookup_append_singleton]

variable {c ticket} in
theorem answer?_reply_of_ne {other : Nat} (h : other ≠ ticket) :
    (c.reply ticket r).answer? other = c.answer? other := by
  rw [answer?_reply, if_neg fun hand => h hand.1, Option.or_none]

theorem reply_answers_nodup (h : (c.answers.map (·.1)).Nodup) :
    ((c.reply ticket r).answers.map (·.1)).Nodup := by
  unfold reply answer?
  split
  · exact h
  by_cases hs : (c.answers.lookup ticket).isSome = true
  · rw [if_pos hs]
    exact h
  · rw [if_neg hs, List.map_append, List.nodup_append]
    refine ⟨h, List.nodup_singleton _, fun a ha b hb hab => hs ?_⟩
    rw [List.lookup_isSome_iff]
    obtain ⟨e, he, rfl⟩ := List.mem_map.1 ha
    rw [List.map_singleton, List.mem_singleton] at hb
    exact ⟨e, he, by simp [hab, hb]⟩

end reply

theorem hasExpired_filter (c : Cluster) (ticket other : Nat) :
    { c with expired := c.expired.filter (·.ticket ≠ ticket) }.hasExpired other =
      (other ≠ ticket && c.hasExpired other) := by
  unfold hasExpired
  rw [List.any_filter]
  by_cases heq : other = ticket
  · simp [heq]
  · rw [decide_eq_true heq, Bool.true_and]
    congr 1
    funext t
    by_cases ht : t.ticket = other <;> simp [ht, heq]

theorem reply_comm (c : Cluster) (ticket : Nat) (r : Response) {f : Cluster → Cluster}
    (hset : ∀ c timers answers, f { c with timers, answers } = { f c with timers, answers })
    (htimers : (f c).timers = c.timers) (hexpired : (f c).expired = c.expired)
    (hanswers : (f c).answers = c.answers) : (f c).reply ticket r = f (c.reply ticket r) := by
  have hticket : (f c).hasExpired ticket = c.hasExpired ticket := by
    rw [hasExpired, hexpired, hasExpired]
  cases h : c.hasExpired ticket with
  | true => rw [reply_of_expired r h, reply_of_expired r (hticket.trans h)]
  | false =>
    rw [reply_of_unexpired r h, reply_of_unexpired r (hticket.trans h), answer?, htimers, hanswers]
    exact (hset c _ _).symm

theorem foldl_reply_rest (l : List (Parked × Response)) (c : Cluster) :
    let c' := l.foldl (fun c a => c.reply a.1.ticket a.2) c
    c'.parked = c.parked ∧ c'.running = c.running ∧ c'.nextTicket = c.nextTicket ∧
      c'.maxQubits = c.maxQubits ∧ c'.expired = c.expired ∧ c'.last = c.last := by
  induction l generalizing c with
  | nil => exact ⟨rfl, rfl, rfl, rfl, rfl, rfl⟩
  | cons a rest ih =>
    obtain ⟨h1, h2, h3, h4, h5, h6⟩ := ih (c.reply a.1.ticket a.2)
    exact ⟨h1.trans (reply_parked ..), h2.trans (reply_running ..), h3.trans (reply_nextTicket ..),
      h4.trans (reply_maxQubits ..), h5.trans (reply_expired ..), h6.trans (reply_last ..)⟩

/-- What answering in turn leaves of the answers: of two to one ticket the first stands. -/
theorem answer?_foldl_reply (l : List (Parked × Response)) (c : Cluster) (ticket : Nat) :
    (l.foldl (fun c a => c.reply a.1.ticket a.2) c).answer? ticket = (c.answer? ticket).or
      (if c.hasExpired ticket then none else (l.find? (·.1.ticket = ticket)).map (·.2)) := by
  induction l generalizing c with
  | nil => simp
  | cons a rest ih =>
    rw [List.foldl_cons, ih, answer?_reply, Option.or_assoc, List.find?_cons, hasExpired_reply]
    by_cases h : a.1.ticket = ticket
    · cases he : c.hasExpired ticket <;> simp [h, he]
    · simp [h, Ne.symm h]

theorem isSome_answer?_foldl_reply {l : List (Parked × Response)} {p : Parked}
    (hp : p ∈ l.map (·.1)) {c : Cluster} (hexpired : c.hasExpired p.ticket = false) :
    ((l.foldl (fun c a => c.reply a.1.ticket a.2) c).answer? p.ticket).isSome = true := by
  obtain ⟨a, ha, rfl⟩ := List.mem_map.1 hp
  rw [answer?_foldl_reply, hexpired, if_neg Bool.false_ne_true, Option.isSome_or, Option.isSome_map,
    Bool.or_eq_true_iff]
  exact .inr (List.find?_isSome.2 ⟨a, ha, by simp⟩)

theorem mem_foldl_reply_timers (l : List (Parked × Response)) (c : Cluster) (t : ParkTimer) :
    t ∈ (l.foldl (fun c a => c.reply a.1.ticket a.2) c).timers ↔ t ∈ c.timers ∧
      ∀ a ∈ l, c.hasExpired a.1.ticket = false → t.ticket ≠ a.1.ticket := by
  induction l generalizing c with
  | nil => simp
  | cons a rest ih =>
    rw [List.foldl_cons, ih, mem_reply_timers, List.forall_mem_cons, and_assoc]
    simp only [hasExpired_reply]

theorem foldl_reply_with (l : List (Parked × Response)) (c : Cluster) (running : List (List Parked))
    (nextSeed : UInt64) : l.foldl (fun c a => c.reply a.1.ticket a.2) { c with running, nextSeed } =
      { l.foldl (fun c a => c.reply a.1.ticket a.2) c with running, nextSeed } := by
  induction l generalizing c with
  | nil => rfl
  | cons a rest ih =>
    have hreply := c.reply_comm a.1.ticket a.2 (f := fun c => { c with running, nextSeed })
      (fun _ _ _ => rfl) rfl rfl rfl
    rw [List.foldl_cons, List.foldl_cons, hreply, ih]

/-! ### Parking -/

section park

variable (c : Cluster) (circuit : String) (ticket : Nat) (r : RunRequest)

theorem evict_of_none {c : Cluster} {circuit : String} (h : c.parked.find? circuit = none) :
    c.evict circuit = c := by
  rw [evict, h]

theorem evict_of_some {c : Cluster} {circuit : String} {old : Parked}
    (h : c.parked.find? circuit = some old) :
    c.evict circuit = { c with parked := c.parked.erase circuit }.replyError old.ticket
      (.invalidRequest (.abandoned circuit)) := by
  rw [evict, h]

theorem evict_parked : (c.evict circuit).parked = c.parked.erase circuit := by
  cases h : c.parked.find? circuit with
  | none => rw [evict_of_none h, KeyMap.erase_of_find?_eq_none h]
  | some old => rw [evict_of_some h, replyError, reply_parked]

theorem find?_evict (id : String) : (c.evict circuit).parked.find? id =
    if id = circuit then none else c.parked.find? id := by
  rw [evict_parked, KeyMap.find?_erase]

theorem answer?_evict (other : Nat) : (c.evict circuit).answer? other = (c.answer? other).or
    (if (c.parked.find? circuit).map (·.ticket) = some other ∧ c.hasExpired other = false then
      some (.ofError (SimulationError.invalidRequest (.abandoned circuit)).message) else none) := by
  cases h : c.parked.find? circuit with
  | none => simp [evict_of_none h]
  | some old =>
    rw [evict_of_some h, replyError, answer?_reply]
    by_cases heq : other = old.ticket
    · simp [answer?, hasExpired, heq]
    · simp [answer?, heq, Ne.symm heq]

@[simp] theorem evict_running : (c.evict circuit).running = c.running := by
  rw [evict]
  split <;> simp [replyError]

@[simp] theorem evict_expired : (c.evict circuit).expired = c.expired := by
  rw [evict]
  split <;> simp [replyError]

@[simp] theorem evict_last : (c.evict circuit).last = c.last := by
  rw [evict]
  split <;> simp [replyError]

@[simp] theorem evict_now : (c.evict circuit).now = c.now := by
  rw [evict]
  split <;> simp [replyError]

@[simp] theorem evict_parkTimeout : (c.evict circuit).parkTimeout = c.parkTimeout := by
  rw [evict]
  split <;> simp [replyError]

@[simp] theorem evict_nextTicket : (c.evict circuit).nextTicket = c.nextTicket := by
  rw [evict]
  split <;> simp [replyError]

@[simp] theorem evict_maxQubits : (c.evict circuit).maxQubits = c.maxQubits := by
  rw [evict]
  split <;> simp [replyError]

theorem park_parked :
    (c.park ticket r).parked = (c.parked.erase r.id).insert r.id ⟨ticket, r⟩ := by
  rw [← evict_parked]
  rfl

theorem find?_park (id : String) : (c.park ticket r).parked.find? id =
    if id = r.id then some ⟨ticket, r⟩ else c.parked.find? id := by
  rw [park_parked, KeyMap.find?_insert, KeyMap.find?_erase]
  split <;> rfl

theorem park_eq : c.park ticket r =
    { c.evict r.id with parked := (c.evict r.id).parked.insert r.id ⟨ticket, r⟩ } := rfl

theorem find?_start (group : List String) (id : String) : (c.start group).parked.find? id =
    if id ∈ group then none else c.parked.find? id := KeyMap.find?_foldl_erase ..

end park

/-! ### Arrivals -/

theorem join_of_missing {c : Cluster} {ticket : Nat} {r : RunRequest}
    (h : (Reach.missing (c.park ticket r).peers r.id).isEmpty = false) :
    c.join ticket r = { c.park ticket r with
      timers := (c.park ticket r).timers ++ [⟨ticket, r.id, c.now + c.parkTimeout⟩] } := by
  unfold join
  dsimp only
  rw [if_neg (by rw [h]; exact Bool.false_ne_true), park_eq]
  simp

theorem join_of_complete {c : Cluster} {ticket : Nat} {r : RunRequest}
    (h : (Reach.missing (c.park ticket r).peers r.id).isEmpty = true) :
    c.join ticket r = (c.park ticket r).start (Reach.group (c.park ticket r).peers r.id) := by
  unfold join
  dsimp only
  rw [if_pos h]

theorem maxQubits_join (c : Cluster) (ticket : Nat) (r : RunRequest) :
    (c.join ticket r).maxQubits = c.maxQubits := by
  cases h : (Reach.missing (c.park ticket r).peers r.id).isEmpty with
  | true => rw [join_of_complete h, park_eq]; exact evict_maxQubits c r.id
  | false => rw [join_of_missing h, park_eq]; exact evict_maxQubits c r.id

theorem running_prefix_join (c : Cluster) (ticket : Nat) (r : RunRequest) :
    c.running <+: (c.join ticket r).running := by
  cases h : (Reach.missing (c.park ticket r).peers r.id).isEmpty with
  | true =>
    rw [join_of_complete h, park_eq, start, evict_running]
    exact List.prefix_append ..
  | false =>
    have heq : (c.join ticket r).running = c.running := by
      rw [join_of_missing h, park_eq, evict_running]
    exact heq ▸ List.prefix_refl c.running

/-! ### Ends of runs -/

theorem length_responses (c : Cluster) (group : List RunRequest) (elapsed : Float) :
    (c.responses group elapsed).length = group.length := by
  unfold responses
  dsimp only
  split
  · next counts hcounts => rw [List.length_map, Engine.length_of_run hcounts]
  · rw [List.length_map]

def outcomes (c : Cluster) (group : List Parked) (elapsed : Float) : List (Parked × Response) :=
  group.zip (c.responses (group.map (·.request)) elapsed)

theorem map_fst_outcomes (c : Cluster) (group : List Parked) (elapsed : Float) :
    (c.outcomes group elapsed).map (·.1) = group := by
  apply List.map_fst_zip
  simp only [length_responses, List.length_map, Nat.le_refl]

theorem complete_of_some {c : Cluster} {place : Nat} {group : List Parked}
    (h : c.running[place]? = some group) (elapsed : Float) :
    c.complete place elapsed = (c.outcomes group elapsed).foldl (fun c a => c.reply a.1.ticket a.2)
      { c with running := c.running.eraseIdx place, nextSeed := c.nextSeed + 1 } := by
  rw [complete, h]
  rfl

theorem answer?_complete {c : Cluster} {place : Nat} {group : List Parked}
    (h : c.running[place]? = some group) (elapsed : Float) (ticket : Nat) :
    (c.complete place elapsed).answer? ticket = (c.answer? ticket).or
      (if c.hasExpired ticket then none
        else ((c.outcomes group elapsed).find? (·.1.ticket = ticket)).map (·.2)) := by
  rw [complete_of_some h, answer?_foldl_reply]
  rfl

/-! ### Time -/

theorem answer?_giveUp (c : Cluster) (t : ParkTimer) (ticket : Nat) :
    (c.giveUp t).answer? ticket = ((c.answer? ticket).or (if ticket = t.ticket then
      some (.ofError (SimulationError.peerTimeout t.circuit
        (Reach.missing c.peers t.circuit)).message) else none)).or
      (if (c.parked.find? t.circuit).map (·.ticket) = some ticket ∧ c.hasExpired ticket = false then
        some (.ofError (SimulationError.invalidRequest (.abandoned t.circuit)).message)
      else none) := by
  have hexpired (other : Nat) :
      { c with expired := c.expired.filter (·.ticket ≠ t.ticket) }.hasExpired other =
        (other ≠ t.ticket && c.hasExpired other) := hasExpired_filter ..
  rw [giveUp, answer?_evict, replyError, answer?_reply, hasExpired_reply, hexpired, hexpired,
    reply_parked]
  by_cases heq : ticket = t.ticket
  · simp [heq, answer?]
  · simp [heq, answer?]

theorem find?_giveUp (c : Cluster) (t : ParkTimer) (id : String) :
    (c.giveUp t).parked.find? id = if id = t.circuit then none else c.parked.find? id := by
  rw [giveUp, find?_evict, replyError, reply_parked]

/-! ### Tickets -/

theorem nextTicket_join (c : Cluster) (ticket : Nat) (r : RunRequest) :
    (c.join ticket r).nextTicket = c.nextTicket := by
  cases h : (Reach.missing (c.park ticket r).peers r.id).isEmpty with
  | true => rw [join_of_complete h, park_eq]; exact evict_nextTicket c r.id
  | false => rw [join_of_missing h, park_eq]; exact evict_nextTicket c r.id

theorem nextTicket_accept (c : Cluster) (unit : String) (ticket : Nat) (r : RunRequest) :
    (c.accept unit ticket r).nextTicket = c.nextTicket := by
  unfold accept
  dsimp only
  split
  · exact nextTicket_join ..
  · split <;> simp [replyError]

theorem nextTicket_receive (c : Cluster) (unit : String) (m : Message) :
    (c.receive unit m).2.nextTicket = c.nextTicket + 1 := by
  unfold receive
  dsimp only
  split
  · exact nextTicket_accept ..
  · split
    · exact reply_nextTicket ..
    · exact nextTicket_accept ..

theorem nextTicket_complete (c : Cluster) (place : Nat) (elapsed : Float) :
    (c.complete place elapsed).nextTicket = c.nextTicket := by
  cases h : c.running[place]? with
  | none => rw [complete, h]
  | some group =>
    rw [complete_of_some h]
    exact (foldl_reply_rest ..).2.2.1

theorem nextTicket_giveUp (c : Cluster) (t : ParkTimer) :
    (c.giveUp t).nextTicket = c.nextTicket := by
  rw [giveUp, evict_nextTicket, replyError, reply_nextTicket]

/-! ### Timers that have expired -/

theorem expired_join (c : Cluster) (ticket : Nat) (r : RunRequest) :
    (c.join ticket r).expired = c.expired := by
  cases h : (Reach.missing (c.park ticket r).peers r.id).isEmpty with
  | true => rw [join_of_complete h, park_eq]; exact evict_expired c r.id
  | false => rw [join_of_missing h, park_eq]; exact evict_expired c r.id

theorem expired_accept (c : Cluster) (unit : String) (ticket : Nat) (r : RunRequest) :
    (c.accept unit ticket r).expired = c.expired := by
  unfold accept
  dsimp only
  split
  · exact expired_join ..
  · split <;> simp [replyError]

theorem expired_receive (c : Cluster) (unit : String) (m : Message) :
    (c.receive unit m).2.expired = c.expired := by
  unfold receive
  dsimp only
  split
  · exact expired_accept ..
  · split
    · exact reply_expired ..
    · exact expired_accept ..

theorem expired_complete (c : Cluster) (place : Nat) (elapsed : Float) :
    (c.complete place elapsed).expired = c.expired := by
  cases h : c.running[place]? with
  | none => rw [complete, h]
  | some group =>
    rw [complete_of_some h]
    exact (foldl_reply_rest ..).2.2.2.2.1

theorem expired_giveUp (c : Cluster) (t : ParkTimer) :
    (c.giveUp t).expired = c.expired.filter (·.ticket ≠ t.ticket) := by
  rw [giveUp, evict_expired, replyError, reply_expired]

end QuantumRelay.Cluster
