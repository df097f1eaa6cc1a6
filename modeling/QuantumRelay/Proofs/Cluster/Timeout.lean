import Mathlib
import QuantumRelay.Proofs.Cluster.Sound

/-!
# What a request is answered

A request that is run with its peers is promised (`Kept`) that it is told of missing peers only while
it is parked and a circuit that it reaches has not arrived; that once it has been taken out it gets what
its run gives; that it is abandoned only for a later request of its circuit; and that giving it up
touches no other request.

The promises are broken in three ways only (`kept_iff`). A request may be given up all of whose missing
peers have arrived, and were taken out without it. It may be given up when it is no longer parked, because
between the expiry of its timer and its consequence it has been taken out, or another request of its
circuit has come in its place. And a run may end for a member whose timer has expired. All of these happen
(`expire_after_arrival`, `expire_before_newcomer`, `expire_during_run`).
-/

namespace QuantumRelay.Cluster

def Answers (c : Cluster) (e : Event) (ticket : Nat) (r : Response) : Prop :=
  c.answer? ticket = none ∧ (c.next e).answer? ticket = some r

def timeoutResponse (c : Cluster) (t : ParkTimer) : Response :=
  .ofError (SimulationError.peerTimeout t.circuit (Reach.missing c.peers t.circuit)).message

def abandonedResponse (circuit : String) : Response :=
  .ofError (SimulationError.invalidRequest (.abandoned circuit)).message

/-- What requests are promised of an event, when the circuits `arrived` have come so far. -/
structure Kept (arrived : List String) (c : Cluster) (e : Event) : Prop where
  /-- Arriving is not answered. -/
  arrival : ∀ p, c.arrival? e = some p → (c.next e).answer? p.ticket = none
  /-- A request that is given up is parked, reaches a circuit that has not arrived, and is not missing
  itself. -/
  timeout : ∀ t, e = .giveUp t →
    (∃ p, c.parked.find? t.circuit = some p ∧ p.ticket = t.ticket) ∧
    t.circuit ∉ Reach.missing c.peers t.circuit ∧
    ∃ id ∈ Reach.missing c.peers t.circuit, id ∉ arrived
  /-- A request that has been taken out is answered what its run gives. -/
  taken : ∀ p ∈ c.running.flatten, ∀ r, c.Answers e p.ticket r →
    ∃ place elapsed group, e = .finish place elapsed ∧ c.running[place]? = some group ∧
      (p, r) ∈ c.outcomes group elapsed
  /-- The end of a run answers all its members. -/
  ended : ∀ place elapsed group, e = .finish place elapsed → c.running[place]? = some group →
    ∀ a ∈ c.outcomes group elapsed, c.Answers e a.1.ticket a.2
  /-- A parked request is answered when it is given up or a request of its circuit comes. -/
  waiting : ∀ id p, c.parked.find? id = some p → ∀ r, c.Answers e p.ticket r →
    (∃ t, e = .giveUp t ∧ t.ticket = p.ticket ∧ r = c.timeoutResponse t) ∨
      ∃ later, c.arrival? e = some later ∧ later.request.id = id ∧ r = abandonedResponse id
  /-- Giving a request up leaves what others have parked and been answered. -/
  others : ∀ t, e = .giveUp t →
    (∀ id p, c.parked.find? id = some p → p.ticket ≠ t.ticket →
      (c.next e).parked.find? id = some p) ∧
    ∀ ticket, ticket ≠ t.ticket → (c.next e).answer? ticket = c.answer? ticket

variable {c : Cluster}

/-! ### Arrivals -/

theorem answer?_join (c : Cluster) (ticket : Nat) (r : RunRequest) (other : Nat) :
    (c.join ticket r).answer? other = (c.evict r.id).answer? other := by
  cases h : (Reach.missing (c.park ticket r).peers r.id).isEmpty with
  | true => rw [join_of_complete h]; rfl
  | false => rw [join_of_missing h]; rfl

theorem answer?_receive_of_joining {unit : String} {m : Message} {r : RunRequest}
    (h : c.joining? unit m = some r) (other : Nat) : (c.receive unit m).2.answer? other =
      (c.answer? other).or
        (if (c.parked.find? r.id).map (·.ticket) = some other ∧ c.hasExpired other = false then
          some (abandonedResponse r.id) else none) := by
  rw [receive_of_joining h, answer?_join, answer?_evict]
  rfl

theorem answer?_receive_of_alone {unit : String} {m : Message} (h : c.joining? unit m = none)
    {other : Nat} (hne : other ≠ c.nextTicket) :
    (c.receive unit m).2.answer? other = c.answer? other := by
  obtain ⟨last, ⟨r, heq⟩ | ⟨response, heq⟩⟩ := receive_of_alone h
  · rw [heq]
    rfl
  · rw [heq, answer?_reply_of_ne response hne]
    rfl

theorem answers_arrive {unit : String} {m : Message} {ticket : Nat} {r : Response}
    (hne : ticket ≠ c.nextTicket) (h : c.Answers (.arrive unit m) ticket r) :
    ∃ later, c.arrival? (.arrive unit m) = some later ∧
      (c.parked.find? later.request.id).map (·.ticket) = some ticket ∧
      r = abandonedResponse later.request.id := by
  obtain ⟨hopen, hanswer⟩ := h
  cases hjoin : c.joining? unit m with
  | none =>
    rw [next, answer?_receive_of_alone hjoin hne, hopen] at hanswer
    cases hanswer
  | some later =>
    rw [next, answer?_receive_of_joining hjoin, hopen, Option.none_or] at hanswer
    split at hanswer
    · next hparked =>
      exact ⟨⟨c.nextTicket, later⟩, by rw [arrival?, hjoin]; rfl, hparked.1,
        (Option.some.inj hanswer).symm⟩
    · cases hanswer

theorem answer?_arrival (h : Sound c c.nextTicket) {e : Event} {p : Parked} (hp : c.arrival? e = some p) :
    (c.next e).answer? p.ticket = none := by
  obtain ⟨hnew, hparked, -⟩ := h.fresh_ticket
  obtain ⟨unit, m, rfl, hjoin, hticket⟩ := eq_arrive_of_arrival hp
  rw [hticket, next, answer?_receive_of_joining hjoin, hnew, Option.none_or, if_neg]
  rintro ⟨heq, -⟩
  obtain ⟨q, hq, hqt⟩ := Option.map_eq_some_iff.1 heq
  exact hparked hq hqt

/-! ### Ends of runs -/

theorem answers_finish {place : Nat} {elapsed : Float} {ticket : Nat} {r : Response}
    (h : c.Answers (.finish place elapsed) ticket r) :
    ∃ group, c.running[place]? = some group ∧
      ∃ a ∈ c.outcomes group elapsed, a.1.ticket = ticket ∧ a.2 = r := by
  obtain ⟨hopen, hanswer⟩ := h
  cases hgroup : c.running[place]? with
  | none =>
    rw [next, complete, hgroup, hopen] at hanswer
    cases hanswer
  | some group =>
    rw [next, answer?_complete hgroup, hopen, Option.none_or] at hanswer
    split at hanswer
    · cases hanswer
    obtain ⟨a, ha, heq⟩ := Option.map_eq_some_iff.1 hanswer
    exact ⟨group, rfl, a, List.mem_of_find?_eq_some ha, by simpa using List.find?_some ha, heq⟩

theorem mem_of_mem_outcomes {group : List Parked} {elapsed : Float} {a : Parked × Response}
    (h : a ∈ c.outcomes group elapsed) : a.1 ∈ group := by
  rw [← c.map_fst_outcomes group elapsed]
  exact List.mem_map_of_mem h

theorem answers_of_mem_outcomes (h : Sound c c.nextTicket) {place : Nat} {elapsed : Float}
    {group : List Parked} (hgroup : c.running[place]? = some group) {a : Parked × Response}
    (ha : a ∈ c.outcomes group elapsed) (hopen : c.answer? a.1.ticket = none)
    (hexpired : c.hasExpired a.1.ticket = false) :
    c.Answers (.finish place elapsed) a.1.ticket a.2 := by
  have hnodup : ((c.outcomes group elapsed).map fun a => a.1.ticket).Nodup := by
    have hmap : (c.outcomes group elapsed).map (fun a => a.1.ticket) = group.map (·.ticket) := by
      conv_rhs => rw [← c.map_fst_outcomes group elapsed, List.map_map]
      rfl
    rw [hmap]
    exact ((List.sublist_flatten_of_mem (List.mem_of_getElem? hgroup)).map _).nodup h.running_nodup
  refine ⟨hopen, ?_⟩
  rw [next, answer?_complete hgroup, hopen, Option.none_or, hexpired, if_neg Bool.false_ne_true]
  cases hfind : (c.outcomes group elapsed).find? (·.1.ticket = a.1.ticket) with
  | none => simpa using List.find?_eq_none.1 hfind a ha
  | some b =>
    have heq : b.1.ticket = a.1.ticket := by simpa using List.find?_some hfind
    rw [List.inj_on_of_nodup_map hnodup (List.mem_of_find?_eq_some hfind) ha heq]
    rfl

/-! ### Requests that are given up -/

theorem answer?_giveUp_of_parked {t : ParkTimer} {p : Parked}
    (hp : c.parked.find? t.circuit = some p) (heq : p.ticket = t.ticket) (ticket : Nat) :
    (c.giveUp t).answer? ticket =
      (c.answer? ticket).or (if ticket = t.ticket then some (c.timeoutResponse t) else none) := by
  rw [answer?_giveUp, hp, Option.map_some, heq]
  by_cases ht : ticket = t.ticket
  · rw [if_pos ht, if_pos ht, Option.or_assoc, Option.some_or]
    rfl
  · rw [if_neg ht, if_neg ht, if_neg (fun h => ht (Option.some.inj h.1).symm), Option.or_none]

/-! ### All events -/

/-- An answer stands whatever happens. -/
theorem answer?_next {ticket : Nat} {r : Response} (h : c.answer? ticket = some r) (e : Event)
    (hlt : ticket ≠ c.nextTicket) : (c.next e).answer? ticket = some r := by
  cases e with
  | arrive unit m =>
    cases hjoin : c.joining? unit m with
    | none => rw [next, answer?_receive_of_alone hjoin hlt, h]
    | some later => rw [next, answer?_receive_of_joining hjoin, h, Option.some_or]
  | finish place elapsed =>
    cases hgroup : c.running[place]? with
    | none => rw [next, complete, hgroup, h]
    | some group => rw [next, answer?_complete hgroup, h, Option.some_or]
  | expire t => exact h
  | giveUp t => rw [next, answer?_giveUp, h, Option.some_or, Option.some_or]
  | pass seconds => exact h

theorem mem_expired_next {e : Event} {t : ParkTimer} (ht : t ∈ (c.next e).expired) :
    t ∈ c.expired ∨ e = .expire t := by
  cases e with
  | arrive unit m => exact .inl (expired_receive c unit m ▸ ht)
  | finish place elapsed => exact .inl (expired_complete c place elapsed ▸ ht)
  | expire t' =>
    refine (List.mem_append.1 ht).imp_right fun ht => ?_
    rw [List.mem_singleton.1 ht]
  | giveUp t' =>
    rw [next, expired_giveUp] at ht
    exact .inl (List.mem_filter.1 ht).1
  | pass seconds => exact .inl ht

theorem hasExpired_next {ticket : Nat} (h : c.hasExpired ticket = false) {e : Event}
    (hexpire : ∀ t, e = .expire t → t.ticket ≠ ticket) : (c.next e).hasExpired ticket = false := by
  refine Bool.eq_false_iff.2 fun hnext => ?_
  obtain ⟨t, ht, heq⟩ := (hasExpired_iff ..).1 hnext
  rcases mem_expired_next ht with ht | ht
  · rw [(c.hasExpired_iff ticket).2 ⟨t, ht, heq⟩] at h
    cases h
  · exact hexpire t ht heq

theorem expire_mem_of_giveUp_mem {es : List Event} (hes : c.Admits es) {t : ParkTimer}
    (ht : .giveUp t ∈ es) : t ∈ c.expired ∨ .expire t ∈ es := by
  induction es generalizing c with
  | nil => cases ht
  | cons e es ih =>
    rcases List.mem_cons.1 ht with rfl | ht
    · exact .inl hes.1
    · rcases ih hes.2 ht with ht | ht
      · exact (mem_expired_next ht).imp_right (List.mem_cons.2 <| .inl ·.symm)
      · exact .inr (List.mem_cons_of_mem _ ht)

theorem expire_mem_of_expired {es : List Event} {t : ParkTimer} (ht : t ∈ (c.after es).expired) :
    t ∈ c.expired ∨ .expire t ∈ es := by
  induction es generalizing c with
  | nil => exact .inl ht
  | cons e es ih =>
    rcases ih ht with ht | ht
    · exact (mem_expired_next ht).imp_right (List.mem_cons.2 <| .inl ·.symm)
    · exact .inr (List.mem_cons_of_mem _ ht)

theorem answers_taken (h : Sound c c.nextTicket) {e : Event} {p : Parked} {r : Response}
    (hp : p ∈ c.running.flatten) (hr : c.Answers e p.ticket r)
    (hgiveUp : ∀ t, e = .giveUp t → t.ticket ≠ p.ticket) :
    ∃ place elapsed group, e = .finish place elapsed ∧ c.running[place]? = some group ∧
      (p, r) ∈ c.outcomes group elapsed := by
  cases e with
  | arrive unit m =>
    obtain ⟨later, -, hq, -⟩ := answers_arrive (Nat.ne_of_lt (h.running_lt p hp)) hr
    obtain ⟨q, hq, heq⟩ := Option.map_eq_some_iff.1 hq
    exact absurd heq.symm (h.parked_apart hq p hp)
  | finish place elapsed =>
    obtain ⟨group, hgroup, a, ha, heq, rfl⟩ := answers_finish hr
    have hmem : a.1 ∈ c.running.flatten :=
      List.mem_flatten.2 ⟨group, List.mem_of_getElem? hgroup, mem_of_mem_outcomes ha⟩
    obtain rfl := List.inj_on_of_nodup_map h.running_nodup hmem hp heq
    exact ⟨place, elapsed, group, rfl, hgroup, ha⟩
  | expire t => exact absurd (hr.1.symm.trans hr.2) (by simp)
  | giveUp t =>
    obtain ⟨hopen, hanswer⟩ := hr
    rw [next, answer?_giveUp, hopen, if_neg (hgiveUp t rfl).symm, Option.none_or, Option.none_or,
      if_neg] at hanswer
    · cases hanswer
    · rintro ⟨hq, -⟩
      obtain ⟨q, hq, heq⟩ := Option.map_eq_some_iff.1 hq
      exact h.parked_apart hq p hp heq.symm
  | pass seconds => exact absurd (hr.1.symm.trans hr.2) (by simp)

theorem answers_parked (h : Sound c c.nextTicket) {e : Event} {id : String} {p : Parked} {r : Response}
    (hp : c.parked.find? id = some p) (hr : c.Answers e p.ticket r)
    (hgiveUp : ∀ t, e = .giveUp t → ∃ q, c.parked.find? t.circuit = some q ∧ q.ticket = t.ticket) :
    (∃ t, e = .giveUp t ∧ t.ticket = p.ticket ∧ r = c.timeoutResponse t) ∨
      ∃ later, c.arrival? e = some later ∧ later.request.id = id ∧ r = abandonedResponse id := by
  cases e with
  | arrive unit m =>
    obtain ⟨later, harrival, hq, heq⟩ := answers_arrive (Nat.ne_of_lt (h.parked_lt hp)) hr
    obtain ⟨q, hq, hticket⟩ := Option.map_eq_some_iff.1 hq
    obtain rfl := h.parked_inj hq hp hticket
    exact .inr ⟨later, harrival, rfl, heq⟩
  | finish place elapsed =>
    obtain ⟨group, hgroup, a, ha, heq, -⟩ := answers_finish hr
    have hmem : a.1 ∈ c.running.flatten :=
      List.mem_flatten.2 ⟨group, List.mem_of_getElem? hgroup, mem_of_mem_outcomes ha⟩
    exact absurd heq (h.parked_apart hp a.1 hmem)
  | expire t => exact absurd (hr.1.symm.trans hr.2) (by simp)
  | giveUp t =>
    obtain ⟨q, hq, heq⟩ := hgiveUp t rfl
    obtain ⟨hopen, hanswer⟩ := hr
    rw [next, answer?_giveUp_of_parked hq heq, hopen, Option.none_or] at hanswer
    split at hanswer
    · next hticket => exact .inl ⟨t, rfl, hticket.symm, (Option.some.inj hanswer).symm⟩
    · cases hanswer
  | pass seconds => exact absurd (hr.1.symm.trans hr.2) (by simp)

/-- An event gives up only what is parked and reaches a circuit that has not arrived, and ends no run that
somebody no longer listens to. -/
structure Timely (arrived : List String) (c : Cluster) (e : Event) : Prop where
  giveUp : ∀ t, e = .giveUp t →
    (∃ p, c.parked.find? t.circuit = some p ∧ p.ticket = t.ticket) ∧
    ∃ id ∈ Reach.missing c.peers t.circuit, id ∉ arrived
  finish : ∀ place elapsed group, e = .finish place elapsed → c.running[place]? = some group →
    ∀ p ∈ group, c.answer? p.ticket = none ∧ c.hasExpired p.ticket = false

theorem kept_of_timely (h : Sound c c.nextTicket) {arrived : List String} {e : Event}
    (ht : Timely arrived c e) : Kept arrived c e where
  arrival _ hp := answer?_arrival h hp
  timeout t het := by
    obtain ⟨⟨p, hp, heq⟩, hmissing⟩ := ht.giveUp t het
    refine ⟨⟨p, hp, heq⟩, fun hself => ?_, hmissing⟩
    have := (Reach.mem_missing_iff.1 hself).2
    rw [peers, KeyMap.contains_map, KeyMap.contains, hp] at this
    cases this
  taken p hp r hr := by
    refine answers_taken h hp hr fun t het heq => ?_
    obtain ⟨⟨q, hq, hqt⟩, -⟩ := ht.giveUp t het
    exact h.parked_apart hq p hp (heq.symm.trans hqt.symm)
  ended place elapsed group hee hgroup a ha := by
    obtain ⟨hopen, hexpired⟩ := ht.finish place elapsed group hee hgroup a.1 (mem_of_mem_outcomes ha)
    exact hee ▸ answers_of_mem_outcomes h hgroup ha hopen hexpired
  waiting _ _ hp r hr := answers_parked h hp hr fun t het => (ht.giveUp t het).1
  others t het := by
    subst het
    obtain ⟨⟨p, hp, heq⟩, -⟩ := ht.giveUp t rfl
    refine ⟨fun id q hq hne => ?_, fun ticket hne => ?_⟩
    · rw [next, find?_giveUp, if_neg, hq]
      rintro rfl
      rw [hp] at hq
      exact hne (Option.some.inj hq ▸ heq)
    · rw [next, answer?_giveUp_of_parked hp heq, if_neg hne, Option.or_none]

/-- An event keeps the promises unless it gives up a request that is no longer parked or all of whose
missing peers have arrived, or ends a run for a member that has been given up or is about to be. -/
theorem kept_iff (h : Sound c c.nextTicket) {arrived : List String} {e : Event} :
    Kept arrived c e ↔ Timely arrived c e := by
  refine ⟨fun hkept => ⟨fun t het => ?_, fun place elapsed group hee hgroup p hp => ?_⟩,
    kept_of_timely h⟩
  · obtain ⟨hparked, -, hmissing⟩ := hkept.timeout t het
    exact ⟨hparked, hmissing⟩
  · rw [← c.map_fst_outcomes group elapsed] at hp
    obtain ⟨a, ha, rfl⟩ := List.mem_map.1 hp
    obtain ⟨hopen, hanswer⟩ := hkept.ended place elapsed group hee hgroup a ha
    refine ⟨hopen, Bool.eq_false_iff.2 fun hexpired => ?_⟩
    rw [hee, next, answer?_complete hgroup, hopen, hexpired, if_pos rfl] at hanswer
    cases hanswer

/-! ### Some histories -/

theorem enabled_expire {t : ParkTimer} (htimers : c.timers = [t]) (hnow : c.now = t.deadline) :
    c.Enabled (.expire t) :=
  ⟨htimers ▸ List.mem_singleton_self t, Nat.le_of_eq hnow.symm⟩

theorem enabled_giveUp {t : ParkTimer} (hexpired : c.expired = [t]) : c.Enabled (.giveUp t) := by
  rw [Enabled, hexpired]
  exact List.mem_singleton_self t

/-- A request of one qubit that sends a bit to each of some circuits. -/
def sendsTo (id : String) (peers : List String) : RunRequest :=
  { id, config := {}, execType := .dynamic, numQubits := 1, numClbits := 0
    instructions := peers.map fun p =>
      { name := "measure_and_send", qubits := [0], circuits := [p] } }

/-- A circuit comes that sends to one that never comes, and its timer expires. -/
def lonelySender : List Event :=
  [.arrive "qpu-0" (.run (sendsTo "a" ["b"])), .pass 30, .expire ⟨0, "a", 30⟩]

/-- A circuit that relays with nobody comes and is run, then one that sends to it; its timer expires. -/
def lateSender : List Event :=
  [.arrive "qpu-1" (.run (sendsTo "b" [])), .arrive "qpu-0" (.run (sendsTo "a" ["b"])), .pass 30,
    .expire ⟨1, "a", 30⟩]

/-- Two circuits that send to each other come, and a timer expires before their run ends. -/
def longRun : List Event :=
  [.arrive "qpu-0" (.run (sendsTo "a" ["b"])), .arrive "qpu-1" (.run (sendsTo "b" ["a"])), .pass 30,
    .expire ⟨0, "a", 30⟩]

/-- A timer expires, and before the request is given up another one of its circuit comes. -/
def newcomer : List Event := lonelySender ++ [.arrive "qpu-0" (.run (sendsTo "a" ["b"]))]

theorem isSome_answer?_complete {place : Nat} {group : List Parked} {p : Parked}
    (hgroup : c.running[place]? = some group) (hp : p ∈ group)
    (hexpired : c.hasExpired p.ticket = false) (elapsed : Float) :
    ((c.complete place elapsed).answer? p.ticket).isSome = true := by
  rw [complete_of_some hgroup]
  exact isSome_answer?_foldl_reply (by rwa [map_fst_outcomes]) hexpired

theorem isSome_answer?_giveUp (c : Cluster) (t : ParkTimer) :
    ((c.giveUp t).answer? t.ticket).isSome = true := by
  rw [answer?_giveUp, if_pos rfl, Option.isSome_or, Option.isSome_or, Option.isSome_some,
    Bool.or_true, Bool.true_or]

/-! ### From the first event on -/

/-- Whatever happens to a fresh cluster, every ticket has one answer at most, which stands; one that has
none waits for a timer, for being given up or for a run, which will answer it. And an event keeps the
promises if and only if it is timely. -/
theorem answered_once_and_kept_iff {maxQubits parkTimeout : Nat} {seed : UInt64} {es : List Event}
    (hes : (fresh maxQubits parkTimeout seed).Admits es) :
    let c := (fresh maxQubits parkTimeout seed).after es
    let arrived := ((fresh maxQubits parkTimeout seed).arrivals es).map (·.request.id)
    (c.answers.map (·.1)).Nodup ∧
    (∀ ticket < c.nextTicket, (c.answer? ticket).isSome = true ∨
      (∃ t ∈ c.timers, t.ticket = ticket ∧ (((c.expire t).giveUp t).answer? ticket).isSome = true) ∨
      (∃ t ∈ c.expired, t.ticket = ticket ∧ ((c.giveUp t).answer? ticket).isSome = true) ∨
      ∃ place group, c.running[place]? = some group ∧ ticket ∈ group.map (·.ticket) ∧
        ∀ elapsed, ((c.complete place elapsed).answer? ticket).isSome = true) ∧
    ∀ e, c.Enabled e →
      (∀ ticket r, c.answer? ticket = some r → (c.next e).answer? ticket = some r) ∧
      (Kept arrived c e ↔ Timely arrived c e) := by
  intro c arrived
  have h : Sound c c.nextTicket := sound_after hes
  have hlate {ticket : Nat} (hexpired : c.hasExpired ticket = true) :
      ∃ t ∈ c.expired, t.ticket = ticket ∧ ((c.giveUp t).answer? ticket).isSome = true := by
    obtain ⟨t, ht, rfl⟩ := (c.hasExpired_iff ticket).1 hexpired
    exact ⟨t, ht, rfl, isSome_answer?_giveUp c t⟩
  refine ⟨h.answers_nodup, fun ticket hticket => ?_, fun e _ => ⟨fun ticket r hr => ?_, kept_iff h⟩⟩
  · rcases h.accounted ticket hticket with hanswer | ⟨id, p, hp, rfl⟩ | ⟨p, hp, rfl⟩ | hexpired
    · exact .inl hanswer
    · obtain ⟨t, ht, heq, -⟩ := h.parked_timer hp
      rcases List.mem_append.1 ht with ht | ht
      · exact .inr (.inl ⟨t, ht, heq, heq ▸ isSome_answer?_giveUp (c.expire t) t⟩)
      · exact .inr (.inr (.inl ⟨t, ht, heq, heq ▸ isSome_answer?_giveUp c t⟩))
    · cases hexpired : c.hasExpired p.ticket with
      | true => exact .inr (.inr (.inl (hlate hexpired)))
      | false =>
        obtain ⟨group, hgroup, hp⟩ := List.mem_flatten.1 hp
        obtain ⟨place, hplace⟩ := List.mem_iff_getElem?.1 hgroup
        exact .inr (.inr (.inr ⟨place, group, hplace, List.mem_map_of_mem hp,
          fun elapsed => isSome_answer?_complete hplace hp hexpired elapsed⟩))
    · exact .inr (.inr (.inl (hlate hexpired)))
  · exact answer?_next hr e (Nat.ne_of_lt (h.answer_lt hr))

/-- A sender whose receiver has not come is given up, as promised. -/
theorem kept_for_lonely_sender :
    let c := (fresh 24 30 0).after lonelySender
    let t : ParkTimer := ⟨0, "a", 30⟩
    (fresh 24 30 0).Admits lonelySender ∧ c.Enabled (.giveUp t) ∧ Kept ["a"] c (.giveUp t) ∧
      c.answer? 0 = none ∧
      (c.next (.giveUp t)).answer? 0 =
        some (.ofError (SimulationError.peerTimeout "a" ["b"]).message) := by
  intro c t
  have hadmits : (fresh 24 30 0).Admits lonelySender := by
    have htimers : ((fresh 24 30 0).after (lonelySender.take 2)).timers = [t] := by cbv
    have hnow : ((fresh 24 30 0).after (lonelySender.take 2)).now = 30 := by cbv
    exact ⟨trivial, trivial, enabled_expire htimers hnow, trivial⟩
  have hexpired : c.expired = [t] := by cbv
  have hmissing : Reach.missing c.peers "a" = ["b"] := by cbv
  have hparked : c.parked.find? "a" = some ⟨0, sendsTo "a" ["b"]⟩ := by cbv
  have hopen : c.answer? 0 = none := by cbv
  have harrived : ((fresh 24 30 0).arrivals lonelySender).map (·.request.id) = ["a"] := by cbv
  have henabled : c.Enabled (.giveUp t) := enabled_giveUp hexpired
  obtain ⟨-, -, hevent⟩ := answered_once_and_kept_iff hadmits
  rw [harrived] at hevent
  have htimely : Timely ["a"] c (.giveUp t) := by
    refine ⟨fun t' ht' => ?_, fun place elapsed group heq => ?_⟩
    · obtain rfl := Event.giveUp.inj ht'
      exact ⟨⟨_, hparked, rfl⟩, "b", by rw [hmissing]; exact List.mem_singleton_self _, by simp⟩
    · cases heq
  refine ⟨hadmits, henabled, (hevent _ henabled).2.2 htimely, hopen, ?_⟩
  · rw [next, answer?_giveUp_of_parked (t := t) hparked rfl, hopen, timeoutResponse, hmissing]
    rfl

/-- The late sender is given up and told that a circuit is missing that has arrived. -/
theorem expire_after_arrival :
    let c := (fresh 24 30 0).after lateSender
    let arrived := ((fresh 24 30 0).arrivals lateSender).map (·.request.id)
    let t : ParkTimer := ⟨1, "a", 30⟩
    (fresh 24 30 0).Admits lateSender ∧ c.Enabled (.giveUp t) ∧ arrived = ["b", "a"] ∧
      (c.next (.giveUp t)).answer? 1 = some (.ofError (SimulationError.peerTimeout "a" ["b"]).message) ∧
      ¬Kept arrived c (.giveUp t) := by
  intro c arrived t
  have htimers : ((fresh 24 30 0).after (lateSender.take 3)).timers = [t] := by cbv
  have hnow : ((fresh 24 30 0).after (lateSender.take 3)).now = 30 := by cbv
  have hexpired : c.expired = [t] := by cbv
  have harrived : arrived = ["b", "a"] := by cbv
  have hmissing : Reach.missing c.peers "a" = ["b"] := by cbv
  have hparked : c.parked.find? "a" = some ⟨1, sendsTo "a" ["b"]⟩ := by cbv
  have hopen : c.answer? 1 = none := by cbv
  refine ⟨⟨trivial, trivial, trivial, enabled_expire htimers hnow, trivial⟩, enabled_giveUp hexpired,
    harrived, ?_, fun hkept => ?_⟩
  · rw [next, answer?_giveUp_of_parked (t := t) hparked rfl, hopen, timeoutResponse, hmissing]
    rfl
  · obtain ⟨-, -, id, hid, hnot⟩ := hkept.timeout t rfl
    rw [hmissing, List.mem_singleton] at hid
    rw [harrived, hid] at hnot
    simp at hnot

/-- A timer expires during a run. Whenever the request is given up then, it is told that its own circuit
is missing, and what the run gives it is lost. -/
theorem expire_during_run :
    let c := (fresh 24 30 0).after longRun
    let t : ParkTimer := ⟨0, "a", 30⟩
    let told := some (Response.ofError (SimulationError.peerTimeout "a" ["a"]).message)
    (fresh 24 30 0).Admits longRun ∧ c.Enabled (.giveUp t) ∧
      c.running.map (·.map (·.request.id)) = [["a", "b"]] ∧
      ∀ elapsed, (c.after [.giveUp t, .finish 0 elapsed]).answer? 0 = told ∧
        (c.after [.finish 0 elapsed, .giveUp t]).answer? 0 = told := by
  intro c t told
  have htimers : ((fresh 24 30 0).after (longRun.take 3)).timers = [t] := by cbv
  have hnow : ((fresh 24 30 0).after (longRun.take 3)).now = 30 := by cbv
  have hexpired : c.expired = [t] := by cbv
  have hmissing : Reach.missing c.peers "a" = ["a"] := by cbv
  have hparked : c.parked.find? "a" = none := by cbv
  have hopen : c.answer? 0 = none := by cbv
  have htickets : c.nextTicket = 2 := by cbv
  have hgroup : (c.running[0]?).isSome = true := by cbv
  obtain ⟨group, hgroup⟩ := Option.isSome_iff_exists.1 hgroup
  refine ⟨⟨trivial, trivial, trivial, enabled_expire htimers hnow, trivial⟩, enabled_giveUp hexpired,
    by cbv, fun elapsed => ⟨?_, ?_⟩⟩
  · show ((c.giveUp t).next (.finish 0 elapsed)).answer? 0 = told
    refine answer?_next ?_ _ (by rw [nextTicket_giveUp, htickets]; decide)
    rw [answer?_giveUp, hparked, hopen, hmissing]
    simp [t]
  · have hlost : (c.complete 0 elapsed).answer? 0 = none := by
      rw [answer?_complete hgroup, hopen, hasExpired, hexpired]
      rfl
    have hstill : (c.complete 0 elapsed).parked = c.parked := by
      rw [complete_of_some hgroup]
      exact (foldl_reply_rest ..).1
    show ((c.complete 0 elapsed).giveUp t).answer? 0 = told
    rw [answer?_giveUp, hlost, peers, hstill, ← peers, hparked, hmissing]
    simp [t, told]

/-- A request is given up after another one of its circuit has come, which is dropped in its place. -/
theorem expire_before_newcomer :
    let c := (fresh 24 30 0).after newcomer
    let t : ParkTimer := ⟨0, "a", 30⟩
    (fresh 24 30 0).Admits newcomer ∧ c.Enabled (.giveUp t) ∧
      (c.parked.find? "a").map (·.ticket) = some 1 ∧
      (c.next (.giveUp t)).parked.find? "a" = none ∧
      (c.next (.giveUp t)).answer? 1 = some (abandonedResponse "a") ∧
      ∀ arrived, ¬Kept arrived c (.giveUp t) := by
  intro c t
  let r := sendsTo "a" ["b"]
  let early := (fresh 24 30 0).after lonelySender
  have hc : c = (early.receive "qpu-0" (.run r)).2 := after_append ..
  have hjoin : early.joining? "qpu-0" (.run r) = some r := rfl
  have htimers : ((fresh 24 30 0).after (lonelySender.take 2)).timers = [t] := by cbv
  have hnow : ((fresh 24 30 0).after (lonelySender.take 2)).now = 30 := by cbv
  have hexpired : c.expired = [t] := by
    rw [hc, expired_receive]
    cbv
  have hearly : early.parked.find? "a" = some ⟨0, r⟩ := by cbv
  have hopen : c.answer? 1 = none := by
    have hnone : early.answer? 1 = none := by cbv
    rw [hc, answer?_receive_of_joining hjoin, hnone, show r.id = "a" from rfl, hearly]
    rfl
  have hparked : (c.parked.find? "a").map (·.ticket) = some 1 := by
    have hticket : early.nextTicket = 1 := by cbv
    rw [hc, receive_of_joining hjoin, hticket, join_of_missing, find?_park]
    · rfl
    · rw [peers, park_parked]
      cbv
  refine ⟨⟨trivial, trivial, enabled_expire htimers hnow, trivial, trivial⟩, enabled_giveUp hexpired,
    hparked, ?_, ?_, fun arrived hkept => ?_⟩
  · rw [next, find?_giveUp, if_pos rfl]
  · have hlistened : c.hasExpired 1 = false := by
      rw [hasExpired, hexpired]
      rfl
    rw [next, answer?_giveUp, hopen, hparked, hlistened]
    simp [t, abandonedResponse]
  · obtain ⟨⟨p, hp, heq⟩, -⟩ := hkept.timeout t rfl
    rw [hp, Option.map_some, heq] at hparked
    simp [t] at hparked

end QuantumRelay.Cluster
