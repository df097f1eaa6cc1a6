import QuantumRelay.Proofs.Batch.Joint
import QuantumRelay.Proofs.Cluster.Stranded

/-!
# Batches with dangling sends

A circuit that is sent to need not receive. Then it may be complete without its sender, and is run
without it; and the sender, which waits for it, is left behind: it stays parked after all requests have
come, and times out on peers that have come (`LeftBehind`).

For batches that name their own circuits only, and in every order, those requests are left behind that
are linked to a circuit that is not linked back. So a batch is run together (`RunTogether`) if and only
if whoever is named is linked back (`runTogether_iff`).
-/

namespace QuantumRelay.SubmittedBatch

open Cluster (Event fresh circuits sound_after Stranded stranded_after)
open RunRequest (Linked Refers Related Settled component)

variable {snapshots : List Snapshot} {config : RunConfig} {b : SubmittedBatch} {es : List Event}
  {maxQubits parkTimeout : Nat} {seed : UInt64} {p : Parked}

/-- A request stays parked after all requests have come. When it is given up, because its timer has
expired, it is told that circuits are missing that have come. -/
def LeftBehind (c₀ : Cluster) (es : List Event) (p : Parked) : Prop :=
  (c₀.after es).parked.find? p.request.id = some p ∧
    ∀ later, (c₀.after es).Admits later → (c₀.after es).arrivals later = [] →
      (((c₀.after es).after later).answer? p.ticket = none ∧
        ∀ t, .giveUp t ∈ later → t.ticket ≠ p.ticket) ∨
      ((∃ missing, missing ≠ [] ∧ missing ⊆ circuits (c₀.arrivals es) ∧
          ((c₀.after es).after later).answer? p.ticket =
            some (.ofError (SimulationError.peerTimeout p.request.id missing).message)) ∧
        ∃ t, .expire t ∈ later ∧ .giveUp t ∈ later ∧ t.ticket = p.ticket)

/-- After all requests of a batch have come, everybody has been taken out with all that it relays with,
and all whose timers do not expire before that run ends are answered what it gives. -/
structure RunTogether (maxQubits : Nat) (config : RunConfig) (b : SubmittedBatch) (c₀ : Cluster)
    (es : List Event) : Prop where
  parked : ∀ id, (c₀.after es).parked.find? id = none
  together : ∀ p ∈ c₀.arrivals es, ∃ group ∈ c₀.started es, p ∈ group ∧
    ∀ x, Related b.requests p.request.id x → x ∈ circuits group
  timers : ∀ t ∈ (c₀.after es).timers, ∃ group ∈ (c₀.after es).running, ∃ p ∈ group,
    p.ticket = t.ticket
  served : ∀ group ∈ c₀.started es, ∀ later, (c₀.after es).Admits later →
    Served maxQubits config b group later ((c₀.after es).after later)

section dangling

variable (hb : Accepted (fresh maxQubits parkTimeout seed) snapshots config b)
  (hnamed : ∀ s ∈ snapshots, ∀ x ∈ s.peers, x ∈ snapshots.map (·.id))
  (hes : Delivers (fresh maxQubits parkTimeout seed) b es)

include hb hnamed in
theorem mem_of_refers {x y : String} (h : Refers b.requests x y) : y ∈ b.requests.map (·.id) := by
  obtain ⟨s, hs, -, hy⟩ := (refers_iff hb).1 h
  rw [requests_ids hb]
  exact hnamed s hs y hy

include hb hnamed hes in
theorem settled_iff_linked_back (hp : p ∈ (fresh maxQubits parkTimeout seed).arrivals es) :
    Settled b.requests p.request.id ↔
      ∀ x, Linked b.requests p.request.id x → Linked b.requests x p.request.id := by
  refine RunRequest.settled_iff_of_named (fun x y => mem_of_refers hb hnamed) ?_
  exact List.mem_map_of_mem (request_mem hb hes hp)

/-! ### Requests that are left behind -/

include hb hes in
theorem stranded (hp : p ∈ (fresh maxQubits parkTimeout seed).arrivals es)
    (hset : ¬Settled b.requests p.request.id) :
    Stranded ((fresh maxQubits parkTimeout seed).arrivals es) p
      ((fresh maxQubits parkTimeout seed).after es) := by
  have hg := gathered hb hes
  have hparked := (find?_eq_some_iff hb hes hp).2 hset
  refine ⟨hparked, hg.lacks hparked, hg.mem, fun t ht hcircuit => ?_⟩
  rw [Cluster.expired_after hes.not_expire, List.append_nil] at ht
  rcases Cluster.mem_timers_after ht with ht | ⟨q, hq, hticket, hq'⟩
  · cases ht
  · rw [hticket, Cluster.eq_of_id_eq (circuits_nodup hb hes) hq hp (hq'.symm.trans hcircuit)]

include hb hnamed hes in
/-- A request is left behind if it is linked to a circuit that is not linked back. -/
theorem leftBehind_iff (hp : p ∈ (fresh maxQubits parkTimeout seed).arrivals es) :
    LeftBehind (fresh maxQubits parkTimeout seed) es p ↔
      ∃ x, Linked b.requests p.request.id x ∧ ¬Linked b.requests x p.request.id := by
  have hnot : (∃ x, Linked b.requests p.request.id x ∧ ¬Linked b.requests x p.request.id) ↔
      ¬Settled b.requests p.request.id := by
    rw [settled_iff_linked_back hb hnamed hes hp]
    simp only [not_forall, exists_prop]
  rw [hnot]
  refine ⟨fun h => (find?_eq_some_iff hb hes hp).1 h.1, fun hset => ?_⟩
  have hs := stranded hb hes hp hset
  refine ⟨hs.parked, fun later hlater harrivals => ?_⟩
  rcases stranded_after hs (sound_after hes.admits) hlater harrivals with
    ⟨hstill, hnever⟩ | ⟨⟨missing, hne, hmissing, hanswer⟩, t, ht, hticket⟩
  · have hsound := sound_after (Cluster.admits_append.2 ⟨hes.admits, hlater⟩)
    rw [Cluster.after_append] at hsound
    exact .inl ⟨hsound.parked_open hstill.parked, hnever⟩
  · have hexpire : .expire t ∈ later := (Cluster.expire_mem_of_giveUp_mem hlater ht).resolve_left <| by
      rw [Cluster.expired_after hes.not_expire]
      exact List.not_mem_nil
    refine .inr ⟨⟨missing, hne, fun x hx => ?_, hanswer⟩, t, hexpire, ht, hticket⟩
    have hmem := mem_requests_iff hb hes hp
    have hlinked := (hmissing x hx).2
    rw [Linked, RunRequest.refers_congr hmem] at hlinked
    have hid := List.mem_map_of_mem (f := (·.id)) (request_mem hb hes hp)
    obtain ⟨r, hr, rfl⟩ := List.mem_map.1 <|
      RunRequest.mem_of_linked (fun x y => mem_of_refers hb hnamed) hid hlinked
    rw [← Cluster.map_id_requests]
    exact List.mem_map_of_mem ((hmem r).2 hr)

/-! ### Batches that are run together -/

include hb hes in
theorem exists_arrival {x y : String} (h : Refers b.requests x y) :
    ∃ p ∈ (fresh maxQubits parkTimeout seed).arrivals es, p.request.id = x := by
  obtain ⟨hresolved, hvalid, -, -⟩ := submit_eq_ok hb
  have hdistributed : b.resolution.isDistributed = true := by
    by_contra hnot
    rw [Bool.not_eq_true] at hnot
    exact Resolution.not_names_of_not_distributed hresolved hvalid hnot ((refers_iff hb).1 h)
  have hperm := requests_perm hb hes
  rw [dynamicRequests, if_pos hdistributed] at hperm
  obtain ⟨r, hr, rfl, -⟩ := h
  obtain ⟨p, hp, rfl⟩ := List.mem_map.1 (hperm.mem_iff.2 hr)
  exact ⟨p, hp, rfl⟩

include hb hnamed hes in
/-- In every order, a batch that names its own circuits only is run together if and only if whoever is
named is linked back. Otherwise those are left behind that are linked to a circuit that is not linked
back, and all others are served. -/
theorem runTogether_iff :
    (RunTogether maxQubits config b (fresh maxQubits parkTimeout seed) es ↔
      ∀ x y, Refers b.requests x y → Linked b.requests y x) ∧
    ∀ p ∈ (fresh maxQubits parkTimeout seed).arrivals es,
      (LeftBehind (fresh maxQubits parkTimeout seed) es p ↔
        ∃ x, Linked b.requests p.request.id x ∧ ¬Linked b.requests x p.request.id) ∧
      ((∀ x, Linked b.requests p.request.id x → Linked b.requests x p.request.id) →
        ∃ group ∈ (fresh maxQubits parkTimeout seed).started es, p ∈ group ∧
          Cluster.requests group = component b.requests p.request.id ∧
          ∀ later, ((fresh maxQubits parkTimeout seed).after es).Admits later →
            Served maxQubits config b group later
              (((fresh maxQubits parkTimeout seed).after es).after later)) := by
  refine ⟨⟨fun h x y hxy => ?_, fun hback => ?_⟩,
    fun p hp => ⟨leftBehind_iff hb hnamed hes hp, fun hback => ?_⟩⟩
  · obtain ⟨p, hp, rfl⟩ := exists_arrival hb hes hxy
    have hset : Settled b.requests p.request.id := by
      by_contra hnot
      have hfind := (find?_eq_some_iff hb hes hp).2 hnot
      rw [h.parked] at hfind
      cases hfind
    exact (hset y (.single hxy)).2
  · have hset (p : Parked) (hp : p ∈ (fresh maxQubits parkTimeout seed).arrivals es) :
        Settled b.requests p.request.id :=
      (settled_iff_linked_back hb hnamed hes hp).2 fun x => RunRequest.linked_symm hback
    have hparked := find?_eq_none hb hes hset
    refine ⟨hparked, fun p hp => ?_, fun t ht => ?_, fun group hgroup later => served_after hb hes hgroup⟩
    · obtain ⟨group, hgroup, hmem, hcomponent⟩ := exists_group hb hes hp (hset p hp)
      refine ⟨group, hgroup, hmem, fun x hx => ?_⟩
      have hlinked := RunRequest.linked_of_related hback hx
      obtain ⟨r, hr, rfl⟩ := List.mem_map.1 ((hset p hp) x hlinked).1
      rw [← Cluster.map_id_requests, hcomponent]
      exact List.mem_map_of_mem (RunRequest.mem_component_iff.2 ⟨hr, hlinked⟩)
    · rcases (sound_after hes.admits).timer_waits t ht with ⟨p, hp, -⟩ | ⟨p, hp, heq, -⟩
      · rw [hparked] at hp
        cases hp
      · obtain ⟨group, hgroup, hmem⟩ := List.mem_flatten.1 hp
        exact ⟨group, hgroup, p, hmem, heq⟩
  · have hset := (settled_iff_linked_back hb hnamed hes hp).2 hback
    obtain ⟨group, hgroup, hmem, hcomponent⟩ := exists_group hb hes hp hset
    exact ⟨group, hgroup, hmem, hcomponent, fun later => served_after hb hes hgroup⟩

end dangling

/-- The pair that relays in both directions is run together. -/
theorem runTogether_relayPair :
    (∀ s ∈ relayPair, ∀ x ∈ s.peers, x ∈ relayPair.map (·.id)) ∧
    ∃ b, Accepted (fresh 2 30 0) relayPair shortRun b ∧ Delivers (fresh 2 30 0) b b.inTurn ∧
      RunTogether 2 shortRun b (fresh 2 30 0) b.inTurn := by
  have hnamed : ∀ s ∈ relayPair, ∀ x ∈ s.peers, x ∈ relayPair.map (·.id) := by decide
  obtain ⟨b, hb, hdangling, -⟩ := exists_relayPair (.inr rfl)
  have hes := delivers_inTurn (fresh 2 30 0) b
  exact ⟨hnamed, b, hb, hes, (runTogether_iff hb hnamed hes).1.2 fun x y h =>
    .single (refers_symm hb hdangling x y h)⟩

/-- A circuit that sends its outcome to one that measures, and does not receive. -/
def unheardPair : List Snapshot :=
  [{ id := "a", instructions := [{ name := "measure_and_send", qubits := [0], circuits := ["b"] }]
     numQubits := 1, numClbits := 0, quantumRegisters := [⟨"q", [0]⟩], classicalRegisters := []
     isParametric := false, isDistributed := true },
   { id := "b", instructions := [{ name := "measure", qubits := [0], clbits := [0] }]
     numQubits := 1, numClbits := 1, quantumRegisters := [⟨"q", [0]⟩]
     classicalRegisters := [⟨"c", [0]⟩], isParametric := false, isDistributed := false }]

/-- Both circuits have come, and the sender is left behind and times out on the other one. -/
theorem unheard_sender_times_out :
    (∀ s ∈ unheardPair, ∀ x ∈ s.peers, x ∈ unheardPair.map (·.id)) ∧
    ∃ b, Accepted (fresh 1 30 0) unheardPair shortRun b ∧ Delivers (fresh 1 30 0) b b.inTurn ∧
      circuits ((fresh 1 30 0).arrivals b.inTurn) = ["a", "b"] ∧
      ((fresh 1 30 0).started b.inTurn).map circuits = [["b"]] ∧
      ((fresh 1 30 0).after b.inTurn).parked.find? "a" ≠ none ∧
      let t : ParkTimer := ⟨0, "a", 30⟩
      ((fresh 1 30 0).after b.inTurn).Admits [.pass 30, .expire t, .giveUp t] ∧
      (((fresh 1 30 0).after b.inTurn).after [.pass 30, .expire t, .giveUp t]).answer? 0 =
        some (.ofError (SimulationError.peerTimeout "a" ["b"]).message) := by
  have hresolution : Resolution.ofBatch .report unheardPair =
      .ok ⟨["a", "b"], [], [⟨"a", 0, "measure_and_send", "b"⟩]⟩ := by rfl
  obtain ⟨jobs, hjobs⟩ : ∃ jobs, makeJobs shortRun .dynamic 0
      (unheardPair.zip ((fresh 1 30 0).endpoints 2)) = .ok jobs := ⟨_, by rfl⟩
  obtain ⟨b, hb, heq⟩ := exists_accepted hresolution hjobs
  have hdistributed : b.resolution.isDistributed = true := by rw [heq]; rfl
  have hturn := inTurn_eq hb hdistributed
  have hcame : circuits ((fresh 1 30 0).arrivals b.inTurn) = ["a", "b"] := by rw [hturn]; cbv
  have hstarted : ((fresh 1 30 0).started b.inTurn).map circuits = [["b"]] := by rw [hturn]; cbv
  have htimers : ((fresh 1 30 0).after b.inTurn).timers = [⟨0, "a", 30⟩] := by rw [hturn]; cbv
  have hnow : ((fresh 1 30 0).after b.inTurn).now = 0 := by rw [hturn]; cbv
  have hmissing : Reach.missing ((fresh 1 30 0).after b.inTurn).peers "a" = ["b"] := by
    rw [hturn]
    cbv
  have hopen : ((fresh 1 30 0).after b.inTurn).answers = [] := by rw [hturn]; cbv
  have hparked : (((fresh 1 30 0).after b.inTurn).parked.find? "a").map (·.ticket) = some 0 := by
    rw [hturn]
    cbv
  obtain ⟨p, hp, hticket⟩ := Option.map_eq_some_iff.1 hparked
  refine ⟨by decide, b, hb, delivers_inTurn .., hcame, hstarted, ?_,
    ⟨trivial, ⟨?_, ?_⟩, ?_, trivial⟩, ?_⟩
  · rw [hp]
    exact Option.some_ne_none p
  · show _ ∈ ((fresh 1 30 0).after b.inTurn).timers
    rw [htimers]
    exact List.mem_cons_self
  · show 30 ≤ ((fresh 1 30 0).after b.inTurn).now + 30
    rw [hnow]
  · show _ ∈ ((fresh 1 30 0).after b.inTurn).expired ++ [⟨0, "a", 30⟩]
    exact List.mem_append_right _ List.mem_cons_self
  · show (((((fresh 1 30 0).after b.inTurn).next (.pass 30)).expire ⟨0, "a", 30⟩).giveUp
      ⟨0, "a", 30⟩).answer? 0 = _
    rw [Cluster.answer?_giveUp_of_parked (p := p) hp hticket, if_pos rfl, Cluster.timeoutResponse]
    show (((fresh 1 30 0).after b.inTurn).answer? 0).or (some (.ofError (SimulationError.peerTimeout
      "a" (Reach.missing ((fresh 1 30 0).after b.inTurn).peers "a")).message)) = _
    rw [Cluster.answer?, hopen, hmissing]
    rfl

end QuantumRelay.SubmittedBatch
