import QuantumRelay.Proofs.Cluster.Alone
import QuantumRelay.Proofs.Engine.Fault

/-!
# Whoever waits lacks somebody

In every state that a cluster can come to, each parked request reaches, through the peers of what is
parked, a circuit that is not parked (`Lacking`). So no complete group is ever left waiting, whichever
circuits come twice and whichever requests are given up.

What keeps it: a request that waits lacks somebody itself, so a way that led through its circuit before
leads to that one now (`lacks_park`); and when something is dropped or taken out, the first circuit on
the way that is gone is lacked (`Lacking.of_parked`).

A group that an arrival takes out (`TakesOut`) is all that the new request reaches, each circuit once,
and holds the peers of its members. So all groups that are run are `SelfContained`, and no run misses a
circuit or has one twice (`SelfContained.run`).
-/

namespace QuantumRelay.Cluster

/-- From every parked circuit on, one is named that is not parked. -/
def Lacking (c : Cluster) : Prop :=
  ∀ id p, c.parked.find? id = some p →
    ∃ x, Reach.Reaches c.peers id x ∧ c.parked.find? x = none

variable {c c' : Cluster} {id x : String}

/-! ### What is lacked after a change -/

theorem Lacking.of_parked (h : Lacking c)
    (hsub : ∀ {id p}, c'.parked.find? id = some p → c.parked.find? id = some p) : Lacking c' := by
  intro id p hp
  obtain ⟨x, hx, hnone⟩ := h id p (hsub hp)
  refine lacks_of_lacks hsub hx ?_
  rw [Option.eq_none_iff_forall_ne_some]
  intro q hq
  rw [hsub hq] at hnone
  cases hnone

theorem Lacking.congr (h : Lacking c) (hparked : c'.parked = c.parked) : Lacking c' := by
  apply h.of_parked
  intro id p hp
  rwa [hparked] at hp

theorem lacks_park {q : Parked}
    (hpark : ∀ id, c'.parked.find? id = if id = q.request.id then some q else c.parked.find? id)
    (hq : ∃ y, Reach.Reaches c'.peers q.request.id y ∧ c'.parked.find? y = none)
    (hx : Reach.Reaches c.peers id x) (hnone : c.parked.find? x = none) :
    ∃ y, Reach.Reaches c'.peers id y ∧ c'.parked.find? y = none := by
  induction hx using Relation.ReflTransGen.head_induction_on with
  | refl =>
    by_cases hself : x = q.request.id
    · rwa [hself]
    · exact ⟨x, .refl, by rw [hpark, if_neg hself, hnone]⟩
  | @head a b hab _ ih =>
    by_cases hself : a = q.request.id
    · rwa [hself]
    · obtain ⟨p, hp, hb⟩ := refers_peers_iff.1 hab
      obtain ⟨y, hy, hnone'⟩ := ih
      have hp' : c'.parked.find? a = some p := by rw [hpark, if_neg hself, hp]
      exact ⟨y, hy.head (refers_peers_iff.2 ⟨p, hp', hb⟩), hnone'⟩

/-! ### Groups that are taken out -/

/-- An arriving request takes a group out of what is parked, itself among it. -/
structure TakesOut (c : Cluster) (q : Parked) (group : List Parked) (c' : Cluster) : Prop where
  /-- The group has the circuits that the request reaches through the peers of what is parked. -/
  reached : ∀ id, id ∈ circuits group ↔
    Reach.Reaches (c.park q.ticket q.request).peers q.request.id id
  /-- Its members are the request and what was parked for the other circuits. -/
  members : ∀ p ∈ group, p = q ∨
    p.request.id ≠ q.request.id ∧ c.parked.find? p.request.id = some p
  closed : ∀ p ∈ group, ∀ x ∈ p.request.peers, x ∈ circuits group
  nodup : (circuits group).Nodup
  /-- Nothing else that was parked is touched. -/
  others : ∀ id, c'.parked.find? id =
    if id ∈ circuits group then none else c.parked.find? id
  /-- The group is run once. -/
  running : c'.running = c.running ++ [group]

section take

variable {q : Parked} (hid : ∀ {id p}, c.parked.find? id = some p → p.request.id = id)
  (hcomplete : (Reach.missing (c.park q.ticket q.request).peers q.request.id).isEmpty = true)

abbrev takenBy (c : Cluster) (q : Parked) : List Parked :=
  Gathered.taken (c.park q.ticket q.request) q.request.id

include hid in
theorem find?_park_eq_some {p : Parked}
    (hp : (c.park q.ticket q.request).parked.find? id = some p) : p.request.id = id ∧
      (p = q ∨ p.request.id ≠ q.request.id ∧ c.parked.find? p.request.id = some p) := by
  rw [find?_park] at hp
  split at hp
  · next heq =>
    obtain rfl := Option.some.inj hp
    exact ⟨heq.symm, .inl rfl⟩
  · next hne =>
    have hp' : p.request.id = id := hid hp
    exact ⟨hp', .inr ⟨hp' ▸ hne, hp' ▸ hp⟩⟩

include hid hcomplete

theorem circuits_takenBy :
    circuits (takenBy c q) = Reach.group (c.park q.ticket q.request).peers q.request.id := by
  have hall := missing_isEmpty_iff.1 hcomplete
  have hfound : ∀ x ∈ Reach.group (c.park q.ticket q.request).peers q.request.id,
      ((c.park q.ticket q.request).parked.find? x).map (·.request.id) = some x := by
    intro x hx
    obtain ⟨p, hp⟩ := hall x (Reach.mem_group_iff.1 hx).1
    rw [hp, Option.map_some, (find?_park_eq_some hid hp).1]
  rw [circuits, takenBy, Gathered.taken, List.map_filterMap, List.filterMap_congr hfound,
    List.filterMap_some]

theorem mem_circuits_takenBy_iff : id ∈ circuits (takenBy c q) ↔
    Reach.Reaches (c.park q.ticket q.request).peers q.request.id id := by
  rw [circuits_takenBy hid hcomplete, Reach.mem_group_iff, contains_peers_iff]
  exact and_iff_left_of_imp fun h => missing_isEmpty_iff.1 hcomplete id h

theorem takesOut_join (c' : Cluster)
    (hparked : c'.parked = ((c.park q.ticket q.request).start
      (Reach.group (c.park q.ticket q.request).peers q.request.id)).parked)
    (hrunning : c'.running = c.running ++ [takenBy c q]) : c.TakesOut q (takenBy c q) c' where
  reached _ := mem_circuits_takenBy_iff hid hcomplete
  members p hp := by
    obtain ⟨x, -, hx⟩ := List.mem_filterMap.1 hp
    exact (find?_park_eq_some hid hx).2
  closed p hp x hx := by
    obtain ⟨y, hy, hfind⟩ := List.mem_filterMap.1 hp
    rw [mem_circuits_takenBy_iff hid hcomplete]
    exact (Reach.mem_group_iff.1 hy).1.tail (refers_peers_iff.2 ⟨p, hfind, hx⟩)
  nodup := by
    rw [circuits_takenBy hid hcomplete]
    exact (Reach.group_sorted _ _).imp String.ne_of_lt
  others id := by
    rw [hparked, find?_start, ← circuits_takenBy hid hcomplete]
    split
    · rfl
    · next hnot =>
      rw [find?_park, if_neg]
      rintro rfl
      exact hnot ((mem_circuits_takenBy_iff hid hcomplete).2 .refl)
  running := hrunning

end take

structure Waits (c : Cluster) (q : Parked) (c' : Cluster) : Prop where
  parked : ∀ id, c'.parked.find? id = if id = q.request.id then some q else c.parked.find? id
  lacks : ∃ x, Reach.Reaches c'.peers q.request.id x ∧ c'.parked.find? x = none
  running : c'.running = c.running

theorem takesOut_or_waits (hid : ∀ {id p}, c.parked.find? id = some p → p.request.id = id)
    {e : Event} {q : Parked} (he : c.arrival? e = some q) :
    (∃ group, c.TakesOut q group (c.next e)) ∨ c.Waits q (c.next e) := by
  obtain ⟨unit, m, rfl, hjoin, hticket⟩ := eq_arrive_of_arrival he
  have hnext : c.next (.arrive unit m) =
      { c with nextTicket := q.ticket + 1, last := c.last.insert unit q.request }.join q.ticket
        q.request := by
    rw [next, receive_of_joining hjoin, ← hticket]
  rw [hnext]
  generalize hc₁ : { c with
    nextTicket := q.ticket + 1, last := c.last.insert unit q.request : Cluster } = c₁
  have hparked : c₁.parked = c.parked := by rw [← hc₁]
  have hsame : (c₁.park q.ticket q.request).parked = (c.park q.ticket q.request).parked := by
    rw [park_parked, park_parked, hparked]
  have hpeers : (c₁.park q.ticket q.request).peers = (c.park q.ticket q.request).peers := by
    rw [peers, hsame, ← peers]
  have hrunning : (c₁.park q.ticket q.request).running = c.running := by
    rw [park_eq, ← hc₁]
    exact evict_running ..
  cases hmissing : (Reach.missing (c₁.park q.ticket q.request).peers q.request.id).isEmpty with
  | true =>
    rw [join_of_complete hmissing]
    rw [hpeers] at hmissing ⊢
    refine .inl ⟨_, takesOut_join hid hmissing _ ?_ ?_⟩
    · rw [start, start, hsame]
    · rw [start, hrunning, hsame]
  | false =>
    rw [join_of_missing hmissing]
    refine .inr ⟨fun id => ?_, ?_, hrunning⟩
    · show (c₁.park q.ticket q.request).parked.find? id = _
      rw [find?_park, hparked]
    · by_contra hnot
      rw [Bool.eq_false_iff] at hmissing
      refine hmissing (missing_isEmpty_iff.2 fun y hy => ?_)
      rw [← Option.isSome_iff_exists, Option.isSome_iff_ne_none]
      exact fun hnone => hnot ⟨y, hy, hnone⟩

/-! ### Events -/

/-- Every event leaves those who wait somebody to lack. -/
theorem Lacking.next (h : Lacking c)
    (hid : ∀ {id p}, c.parked.find? id = some p → p.request.id = id) (e : Event) :
    Lacking (c.next e) := by
  cases he : c.arrival? e with
  | some q =>
    rcases takesOut_or_waits hid he with ⟨group, hgroup⟩ | hwaits
    · apply h.of_parked
      intro id p hp
      rw [hgroup.others] at hp
      split at hp
      · cases hp
      · exact hp
    · intro id p hp
      by_cases hself : id = q.request.id
      · rw [hself]
        exact hwaits.lacks
      · rw [hwaits.parked, if_neg hself] at hp
        obtain ⟨x, hx, hnone⟩ := h id p hp
        exact lacks_park hwaits.parked hwaits.lacks hx hnone
  | none =>
    by_cases hgiveUp : ∃ t, e = .giveUp t
    · obtain ⟨t, rfl⟩ := hgiveUp
      apply h.of_parked
      intro id p hp
      rw [Cluster.next, find?_giveUp] at hp
      split at hp
      · cases hp
      · exact hp
    · exact h.congr (parked_next he fun t het => hgiveUp ⟨t, het⟩)

/-! ### Runs -/

/-- A group that has each circuit once, and the peers that valid instructions name. -/
structure SelfContained (group : List Parked) : Prop where
  nodup : (circuits group).Nodup
  peers : Engine.PeersAtHand (requests group)

theorem TakesOut.selfContained {q : Parked} {group : List Parked} (h : c.TakesOut q group c') :
    SelfContained group where
  nodup := h.nodup
  peers r hr i hi _ x _ hpeer := by
    obtain ⟨p, hp, rfl⟩ := List.mem_map.1 hr
    rw [map_id_requests]
    exact h.closed p hp x (List.mem_filterMap.2 ⟨i, hi, hpeer⟩)

theorem selfContained_singleton {ticket : Nat} {r : RunRequest}
    (h : r.instructions.find? (·.relay.isSome) = none) : SelfContained [⟨ticket, r⟩] where
  nodup := List.nodup_singleton _
  peers r' hr i hi s x hvalid hpeer := by
    obtain rfl : r' = r := List.mem_singleton.1 hr
    have hrelay : i.relay.isSome = true := by
      rw [← (Instruction.peer_of_validate hvalid).1, hpeer, Option.isSome_some]
    exact absurd hrelay (List.find?_eq_none.1 h i hi)

theorem selfContained_of_receive {unit : String} {m : Message} (h : c.joining? unit m = none)
    {group : List Parked} (hgroup : group ∈ (c.receive unit m).2.running) :
    group ∈ c.running ∨ SelfContained group := by
  cases hadmitted : c.admitted? unit m with
  | none =>
    cases m with
    | run r => cases hadmitted
    | update u =>
      have hrebound : ∃ e, { c with nextTicket := c.nextTicket + 1 }.rebound unit u = .error e := by
        cases hu : c.rebound unit u with
        | error e => exact ⟨e, hu⟩
        | ok r =>
          rw [admitted?, hu] at hadmitted
          cases hadmitted
      obtain ⟨e, he⟩ := hrebound
      unfold receive at hgroup
      simp only [he, replyError, reply_running] at hgroup
      exact .inl hgroup
  | some r =>
    rw [joining?, hadmitted, Option.filter_some] at h
    cases hexec : r.execType with
    | dynamic => simp [hexec] at h
    | offloading =>
      rw [receive_of_admitted hadmitted] at hgroup
      simp only [accept, hexec] at hgroup
      split at hgroup
      · rw [replyError, reply_running] at hgroup
        exact .inl hgroup
      · next hnone =>
        rcases List.mem_append.1 hgroup with hgroup | hgroup
        · exact .inl hgroup
        · rw [List.mem_singleton.1 hgroup]
          exact .inr (selfContained_singleton hnone)

theorem selfContained_of_next (hid : ∀ {id p}, c.parked.find? id = some p → p.request.id = id)
    {e : Event} {group : List Parked} (hgroup : group ∈ (c.next e).running) :
    group ∈ c.running ∨ SelfContained group := by
  cases he : c.arrival? e with
  | some q =>
    rcases takesOut_or_waits hid he with ⟨taken, htaken⟩ | hwaits
    · rw [htaken.running] at hgroup
      rcases List.mem_append.1 hgroup with hgroup | hgroup
      · exact .inl hgroup
      · rw [List.mem_singleton.1 hgroup]
        exact .inr htaken.selfContained
    · rw [hwaits.running] at hgroup
      exact .inl hgroup
  | none =>
    cases e with
    | arrive unit m => exact selfContained_of_receive (Option.map_eq_none_iff.1 he) hgroup
    | finish place elapsed =>
      cases hplace : c.running[place]? with
      | none =>
        rw [next, complete, hplace] at hgroup
        exact .inl hgroup
      | some old =>
        rw [next, complete_of_some hplace, (foldl_reply_rest ..).2.1] at hgroup
        exact .inl (List.mem_of_mem_eraseIdx hgroup)
    | expire t => exact .inl hgroup
    | giveUp t =>
      rw [next, giveUp, evict_running, replyError, reply_running] at hgroup
      exact .inl hgroup
    | pass seconds => exact .inl hgroup

/-- The run of a self-contained group neither misses a circuit nor finds one twice. -/
theorem SelfContained.run {group : List Parked} (h : SelfContained group) {maxQubits : Nat}
    {otherwise : UInt64} {config : RunConfig} {error : SimulationError}
    (hrun : Engine.run maxQubits otherwise (requests group) config = .error error) :
    (∀ owner peer, error ≠ .unknownPeer owner peer) ∧
      ∀ id, error ≠ .invalidRequest (.repeatedCircuit id) := by
  rcases Engine.fault_of_run (by rw [map_id_requests]; exact h.nodup) h.peers hrun with
    hown | ⟨fault, rfl⟩
  · cases hown <;> exact ⟨nofun, nofun⟩
  · exact ⟨nofun, nofun⟩

/-! ### Every state -/

/-- What holds of a cluster between events. -/
structure Orderly (c : Cluster) : Prop where
  sound : Sound c c.nextTicket
  lacking : Lacking c
  selfContained : ∀ group ∈ c.running, SelfContained group

theorem Orderly.next (h : Orderly c) {e : Event} (he : c.Enabled e) : Orderly (c.next e) where
  sound := h.sound.next he
  lacking := h.lacking.next h.sound.parked_id e
  selfContained _ hgroup :=
    (selfContained_of_next h.sound.parked_id hgroup).elim (h.selfContained _) id

theorem orderly_after {maxQubits parkTimeout : Nat} {seed : UInt64} {es : List Event}
    (hes : (fresh maxQubits parkTimeout seed).Admits es) :
    Orderly ((fresh maxQubits parkTimeout seed).after es) :=
  hes.keeps (fun _ _ h he => h.next he)
    { sound := sound_fresh maxQubits parkTimeout seed
      lacking := fun _ _ hp => nomatch hp
      selfContained := fun _ hgroup => absurd hgroup List.not_mem_nil }

/-- In every state, what is parked is stored under its own circuit and lacks somebody. A request that
comes to be run with its peers takes out all that it reaches, if all of that is there, and else waits;
nothing but arrivals and timers that are acted upon changes what is parked; and no run that is under way
misses a circuit or finds one twice. -/
theorem complete_groups_taken_out {maxQubits parkTimeout : Nat} {seed : UInt64} {es : List Event}
    (hes : (fresh maxQubits parkTimeout seed).Admits es) :
    let c := (fresh maxQubits parkTimeout seed).after es
    (∀ id p, c.parked.find? id = some p → p.request.id = id ∧
      ∃ x, Reach.Reaches c.peers id x ∧ c.parked.find? x = none) ∧
    (∀ e q, c.arrival? e = some q →
      (∃ group, c.TakesOut q group (c.next e)) ∨ c.Waits q (c.next e)) ∧
    (∀ e, c.arrival? e = none → ∀ id, (c.next e).parked.find? id = c.parked.find? id ∨
      ∃ t, e = .giveUp t ∧ t.circuit = id ∧ (c.next e).parked.find? id = none) ∧
    ∀ group ∈ c.running, ∀ maxQubits otherwise config error,
      Engine.run maxQubits otherwise (requests group) config = .error error →
        (∀ owner peer, error ≠ .unknownPeer owner peer) ∧
          ∀ id, error ≠ .invalidRequest (.repeatedCircuit id) := by
  intro c
  have h : Orderly c := orderly_after hes
  have hid {id : String} {p : Parked} (hp : c.parked.find? id = some p) : p.request.id = id :=
    h.sound.parked_id hp
  refine ⟨fun id p hp => ⟨hid hp, h.lacking id p hp⟩, fun e q he => takesOut_or_waits hid he,
    fun e he id => ?_, fun group hgroup _ _ _ _ hrun => (h.selfContained group hgroup).run hrun⟩
  by_cases hgiveUp : ∃ t, e = .giveUp t
  · obtain ⟨t, rfl⟩ := hgiveUp
    have hfind : (c.next (.giveUp t)).parked.find? id =
        if id = t.circuit then none else c.parked.find? id := find?_giveUp ..
    by_cases hcircuit : id = t.circuit
    · exact .inr ⟨t, rfl, hcircuit.symm, by rw [hfind, if_pos hcircuit]⟩
    · exact .inl (by rw [hfind, if_neg hcircuit])
  · exact .inl (by rw [parked_next he fun t het => hgiveUp ⟨t, het⟩])

def waitingTwo : List Event :=
  [.arrive "qpu-0" (.run (sendsTo "a" ["b"])), .arrive "qpu-1" (.run (sendsTo "c" ["d"]))]

/-- The circuit that one of two waits for takes this one out, and the other stays. -/
theorem waited_for_taken_out :
    let c := (fresh 24 30 0).after waitingTwo
    let q : Parked := ⟨2, sendsTo "b" ["a"]⟩
    let e : Event := .arrive "qpu-2" (.run q.request)
    (fresh 24 30 0).Admits waitingTwo ∧ c.arrival? e = some q ∧
      ∃ group, c.TakesOut q group (c.next e) ∧ circuits group = ["a", "b"] ∧
        (c.next e).parked.find? "c" = some ⟨1, sendsTo "c" ["d"]⟩ := by
  have hadmits : (fresh 24 30 0).Admits waitingTwo := by simp [Admits, waitingTwo, Enabled]
  have hnone : ((fresh 24 30 0).after waitingTwo).running = [] := by cbv
  have hother : ((fresh 24 30 0).after waitingTwo).parked.find? "c" =
      some ⟨1, sendsTo "c" ["d"]⟩ := by cbv
  have hrunning : (((fresh 24 30 0).after waitingTwo).next
      (.arrive "qpu-2" (.run (sendsTo "b" ["a"])))).running.map circuits = [["a", "b"]] := by cbv
  have harrival : ((fresh 24 30 0).after waitingTwo).arrival?
      (.arrive "qpu-2" (.run (sendsTo "b" ["a"]))) = some ⟨2, sendsTo "b" ["a"]⟩ := by cbv
  intro c q e
  obtain ⟨group, htaken⟩ : ∃ group, c.TakesOut q group (c.next e) := by
    refine ((complete_groups_taken_out hadmits).2.1 e q harrival).resolve_right fun hwaits => ?_
    rw [hwaits.running, hnone] at hrunning
    cases hrunning
  have hcircuits : circuits group = ["a", "b"] := by
    rw [htaken.running, hnone] at hrunning
    exact (List.cons.inj hrunning).1
  refine ⟨hadmits, harrival, group, htaken, hcircuits, ?_⟩
  rw [htaken.others, hcircuits, if_neg (by decide)]
  exact hother

end QuantumRelay.Cluster
