import Mathlib
import QuantumRelay.Proofs.Batch.Delivery
import QuantumRelay.Proofs.Engine.Fault

/-!
# Batches that are run jointly

In a distributed batch without dangling sends, whoever is named names back. So however its requests
come, the members of a component are taken out together when the last one comes, and run once
(`joint_in_every_order`); all that are answered are answered what this one run gives, each for its circuit,
which for a given seed is the same in every order.

A run can fail, though: every circuit of the batch may fit a unit, and their joint state not
(`joint_too_large`).
-/

namespace QuantumRelay.SubmittedBatch

open Cluster (Event fresh circuits)
open RunRequest (Linked Refers Settled component)

variable {snapshots : List Snapshot} {config : RunConfig} {b : SubmittedBatch} {es : List Event}
  {maxQubits parkTimeout : Nat} {seed : UInt64}

/-- After the requests of a batch have come, a request may end in an answer before its timer expires. -/
def EndsIn (c₀ : Cluster) (es : List Event) (p : Parked) (a : Response) : Prop :=
  ∃ later, (c₀.after es).Admits later ∧ Heard later p ∧
    ((c₀.after es).after later).answer? p.ticket = some a

/-- What becomes of a batch whose requests come to a fresh cluster in some order. -/
structure RunJointly (maxQubits : Nat) (config : RunConfig) (b : SubmittedBatch) (c₀ : Cluster)
    (es : List Event) : Prop where
  /-- All requests have come, and none is left. -/
  arrived : (Cluster.requests (c₀.arrivals es)).Perm b.requests
  parked : ∀ id, (c₀.after es).parked.find? id = none
  /-- Every request is taken out once, in the component of its circuit. -/
  once : (c₀.started es).flatten.Perm (c₀.arrivals es)
  together : ∀ group ∈ c₀.started es, ∀ p ∈ group,
    Cluster.requests group = component b.requests p.request.id
  /-- A component is taken out when the last of it comes, and nothing before. -/
  last : ∀ before e rest, es = before ++ e :: rest → ∀ q, (c₀.after before).arrival? e = some q →
    let complete := ∀ x, Linked b.requests q.request.id x →
      x ∈ circuits (c₀.arrivals (before ++ [e]))
    (complete → ((c₀.after before).starts e).map Cluster.requests =
      [component b.requests q.request.id]) ∧ (¬complete → (c₀.after before).starts e = [])
  /-- All of a group that are answered before their timers expire are answered what one run gives. -/
  served : ∀ group ∈ c₀.started es, ∀ later, (c₀.after es).Admits later →
    Served maxQubits config b group later ((c₀.after es).after later)

/-! ### Who names whom -/

section joint

variable (hb : Accepted (fresh maxQubits parkTimeout seed) snapshots config b)
  (hdangling : b.resolution.danglingSends = [])

include hb hdangling in
theorem refers_symm (x y : String) (h : Refers b.requests x y) : Refers b.requests y x := by
  obtain ⟨hresolved, hvalid, -, -⟩ := submit_eq_ok hb
  rw [refers_iff hb] at h ⊢
  exact Resolution.names_symm hresolved hvalid hdangling h

include hb hdangling in
theorem linked_mem {id x : String} (hid : id ∈ b.requests.map (·.id))
    (hx : Linked b.requests id x) : x ∈ b.requests.map (·.id) := by
  refine RunRequest.mem_of_linked (fun a c hac => ?_) hid hx
  obtain ⟨r, hr, rfl, -⟩ := refers_symm hb hdangling a c hac
  exact List.mem_map_of_mem hr

include hb hdangling in
theorem settled_of_mem {r : RunRequest} (hr : r ∈ b.requests) : Settled b.requests r.id := by
  rw [RunRequest.settled_iff_of_symm (fun _ h => h) (requests_nodup hb) (refers_symm hb hdangling)]
  exact fun x hx => linked_mem hb hdangling (List.mem_map_of_mem hr) hx

/-! ### Runs of components -/

include hb hdangling in
theorem ownFault_of_outcomeOf {r : RunRequest} (hr : r ∈ b.requests) {draws : UInt64}
    {e : SimulationError} (h : Engine.outcomeOf maxQubits draws (component b.requests r.id) config
      r.id = .error e) : Engine.OwnFault e := by
  have hsorted : (component b.requests r.id).Pairwise fun a b => a.id < b.id :=
    RunRequest.component_sorted (requests_nodup hb)
  refine Engine.ownFault_of_run ?_ (fun q hq i hi => ?_) (map_eq_error.1 h)
  · exact List.pairwise_map.2 (hsorted.imp String.ne_of_lt)
  · obtain ⟨hmem, hlinked⟩ := RunRequest.mem_component_iff.1 hq
    refine ⟨(request_of_mem hb hmem).2.2 i hi, fun peer hpeer => ?_⟩
    have hlinked' : Linked b.requests r.id peer :=
      hlinked.tail ⟨q, hmem, rfl, List.mem_filterMap.2 ⟨i, hi, hpeer⟩⟩
    obtain ⟨q', hq', rfl⟩ :=
      List.mem_map.1 (linked_mem hb hdangling (List.mem_map_of_mem hr) hlinked')
    exact List.mem_map_of_mem (RunRequest.mem_component_iff.2 ⟨hq', hlinked'⟩)

/-! ### Arrivals -/

variable (hes : Delivers (fresh maxQubits parkTimeout seed) b es)

include hb hdangling hes in
/-- The last of a component that comes takes it out, and nobody else takes anything out. -/
theorem starts_of_arrival {before rest : List Event} {e : Event}
    (heq : es = before ++ e :: rest) {q : Parked}
    (hq : ((fresh maxQubits parkTimeout seed).after before).arrival? e = some q) :
    let complete := ∀ x, Linked b.requests q.request.id x →
      x ∈ circuits ((fresh maxQubits parkTimeout seed).arrivals (before ++ [e]))
    (complete → (((fresh maxQubits parkTimeout seed).after before).starts e).map Cluster.requests =
      [component b.requests q.request.id]) ∧
    (¬complete → ((fresh maxQubits parkTimeout seed).after before).starts e = []) := by
  intro complete
  have harrivals : (fresh maxQubits parkTimeout seed).arrivals (before ++ [e]) =
      (fresh maxQubits parkTimeout seed).arrivals before ++ [q] := by
    rw [Cluster.arrivals_append, Cluster.arrivals, Cluster.arrivals, hq]
    rfl
  have hcircuits := circuits_nodup hb hes
  rw [heq, List.append_cons] at hcircuits
  have hprefix := Cluster.nodup_of_append hcircuits
  have hbefore := Cluster.gathered_after maxQubits parkTimeout seed
    (fun t ht => Cluster.giveUp_not_mem hes.admits hes.not_expire t (heq ▸ List.mem_append_left _ ht))
    (Cluster.nodup_of_append hprefix)
  have hcame (p : Parked) (hp : p ∈ (fresh maxQubits parkTimeout seed).arrivals (before ++ [e])) :
      p ∈ (fresh maxQubits parkTimeout seed).arrivals es := by
    rw [heq, List.append_cons, Cluster.arrivals_append]
    exact List.mem_append_left _ hp
  rw [harrivals] at hprefix hcame
  have hmem := hcame q (List.mem_append_right _ List.mem_cons_self)
  have hsub (r : RunRequest) (hr : r ∈ Cluster.requests
      ((fresh maxQubits parkTimeout seed).arrivals before ++ [q])) : r ∈ b.requests := by
    obtain ⟨p, hp, rfl⟩ := List.mem_map.1 hr
    exact (mem_requests_iff hb hes hmem _).1 (List.mem_map_of_mem (hcame p hp))
  obtain ⟨-, hstarts, hnone⟩ := hbefore.arrive hq hprefix
  have hcomplete : complete ↔ Settled (Cluster.requests
      ((fresh maxQubits parkTimeout seed).arrivals before ++ [q])) q.request.id := by
    rw [RunRequest.settled_iff_of_symm hsub (requests_nodup hb) (refers_symm hb hdangling),
      Cluster.map_id_requests, ← harrivals]
  rw [hcomplete]
  refine ⟨fun hset => ?_, hnone⟩
  obtain ⟨group, hgroup, hcomponent⟩ := hstarts hset
  rw [hgroup, List.map_singleton, hcomponent]
  congr 1
  refine RunRequest.component_eq_of_closed hsub (requests_nodup hb) ?_ fun x hx => (hset x hx).1
  rwa [Cluster.map_id_requests]

/-! ### The whole batch -/

include hb hdangling hes in
theorem runJointly (hdistributed : b.resolution.isDistributed = true) :
    RunJointly maxQubits config b (fresh maxQubits parkTimeout seed) es := by
  have hg := gathered hb hes
  have hsettled {p : Parked} (hp : p ∈ (fresh maxQubits parkTimeout seed).arrivals es) :
      Settled b.requests p.request.id :=
    settled_of_mem hb hdangling (request_mem hb hes hp)
  refine ⟨?_, find?_eq_none hb hes fun p => hsettled, ?_,
    fun group hgroup p => requests_started hb hes hgroup,
    fun before e rest heq q hq => starts_of_arrival hb hdangling hes heq hq,
    fun group hgroup later => served_after hb hes hgroup⟩
  · have hperm := requests_perm hb hes
    rwa [dynamicRequests, if_pos hdistributed] at hperm
  · have hnodup : ((fresh maxQubits parkTimeout seed).arrivals es).Nodup :=
      (circuits_nodup hb hes).of_map
    refine (List.perm_ext_iff_of_nodup hg.started_nodup hnodup).2 fun p => ?_
    rw [hg.started_iff]
    exact ⟨fun h => h.1, fun hp => ⟨hp, (settled_iff hb hes hp).2 (hsettled hp)⟩⟩

theorem served_of_endsIn {c₀ : Cluster} {p : Parked} {a : Response}
    (h : RunJointly maxQubits config b c₀ es) (hp : p ∈ c₀.arrivals es) (ha : EndsIn c₀ es p a) :
    ∃ draws elapsed, (∀ s, config.seed = some s → draws = s) ∧ a = .ofOutcome (Engine.outcomeOf
      maxQubits draws (component b.requests p.request.id) config p.request.id) elapsed := by
  obtain ⟨later, hlater, hheard, hanswer⟩ := ha
  obtain ⟨group, hgroup, hmem⟩ := List.mem_flatten.1 (h.once.mem_iff.2 hp)
  rcases h.served group hgroup later hlater with ⟨-, hnone⟩ | ⟨draws, elapsed, hdraws, heq⟩
  · rw [hnone p hmem hheard] at hanswer
    cases hanswer
  · exact ⟨draws, elapsed, hdraws, Option.some.inj (hanswer.symm.trans (heq p hmem hheard))⟩

theorem ofOutcome_alike (outcome : Except SimulationError Counts) (elapsed elapsed' : Float) :
    (Response.ofOutcome outcome elapsed).counts = (Response.ofOutcome outcome elapsed').counts ∧
    (Response.ofOutcome outcome elapsed).error = (Response.ofOutcome outcome elapsed').error := by
  cases outcome with
  | ok counts => exact ⟨rfl, rfl⟩
  | error e => exact ⟨rfl, rfl⟩

include hb hdangling hes in
/-- In every order in which the requests of a distributed batch without dangling sends come, its
components are run jointly, each once. A run fails for its own faults only, and for a given seed
everybody is answered alike in all orders. -/
theorem joint_in_every_order (hdistributed : b.resolution.isDistributed = true) :
    (∀ x y, Refers b.requests x y → Refers b.requests y x) ∧
    RunJointly maxQubits config b (fresh maxQubits parkTimeout seed) es ∧
    (∀ r ∈ b.requests, ∀ draws e, Engine.outcomeOf maxQubits draws (component b.requests r.id)
      config r.id = .error e → Engine.OwnFault e) ∧
    ∀ es', Delivers (fresh maxQubits parkTimeout seed) b es' → config.seed.isSome = true →
      ∀ p ∈ (fresh maxQubits parkTimeout seed).arrivals es,
      ∀ p' ∈ (fresh maxQubits parkTimeout seed).arrivals es', p'.request = p.request →
      ∀ a a', EndsIn (fresh maxQubits parkTimeout seed) es p a →
        EndsIn (fresh maxQubits parkTimeout seed) es' p' a' →
        a'.counts = a.counts ∧ a'.error = a.error := by
  have hrun := runJointly hb hdangling hes hdistributed
  refine ⟨refers_symm hb hdangling, hrun, fun r hr draws e he => ?_, ?_⟩
  · exact ownFault_of_outcomeOf hb hdangling hr he
  · intro es' hes' hseed p hp p' hp' hrequest a a' ha ha'
    obtain ⟨s, hs⟩ := Option.isSome_iff_exists.1 hseed
    obtain ⟨draws, elapsed, hdraws, rfl⟩ := served_of_endsIn hrun hp ha
    obtain ⟨draws', elapsed', hdraws', rfl⟩ :=
      served_of_endsIn (runJointly hb hdangling hes' hdistributed) hp' ha'
    rw [hdraws s hs, hdraws' s hs, hrequest]
    exact ofOutcome_alike _ elapsed' elapsed

end joint

/-- A circuit of one qubit that sends its outcome, and one that receives it. -/
def relayPair : List Snapshot :=
  [{ id := "a", instructions := [{ name := "measure_and_send", qubits := [0], circuits := ["b"] }]
     numQubits := 1, numClbits := 0, quantumRegisters := [⟨"q", [0]⟩], classicalRegisters := []
     isParametric := false, isDistributed := true },
   { id := "b", instructions := [{ name := "recv", qubits := [], clbits := [0], circuits := ["a"] }]
     numQubits := 1, numClbits := 1, quantumRegisters := [⟨"q", [0]⟩]
     classicalRegisters := [⟨"c", [0]⟩], isParametric := false, isDistributed := true }]

def shortRun : RunConfig := { shots := 20, seed := some 5 }

theorem exists_relayPair {maxQubits : Nat} (h : maxQubits = 1 ∨ maxQubits = 2) :
    ∃ b, Accepted (fresh maxQubits 30 0) relayPair shortRun b ∧ b.resolution.danglingSends = [] ∧
      b.resolution.isDistributed = true := by
  have hresolution : Resolution.ofBatch .report relayPair =
      .ok ⟨["a", "b"], [⟨"a", "b", .classical⟩], []⟩ := by rfl
  obtain ⟨jobs, hjobs⟩ : ∃ jobs, makeJobs shortRun .dynamic 0
      (relayPair.zip ((fresh maxQubits 30 0).endpoints 2)) = .ok jobs := by
    rcases h with rfl | rfl
    · exact ⟨_, by rfl⟩
    · exact ⟨_, by rfl⟩
  obtain ⟨b, hb, heq⟩ := exists_accepted hresolution hjobs
  exact ⟨b, hb, by rw [heq], by rw [heq]; rfl⟩

/-- On units of two qubits the pair is run jointly. -/
theorem joint_in_turn :
    ∃ b, Accepted (fresh 2 30 0) relayPair shortRun b ∧ b.resolution.danglingSends = [] ∧
      b.resolution.isDistributed = true ∧ Delivers (fresh 2 30 0) b b.inTurn ∧
      RunJointly 2 shortRun b (fresh 2 30 0) b.inTurn := by
  obtain ⟨b, hb, hdangling, hdistributed⟩ := exists_relayPair (.inr rfl)
  have hes := delivers_inTurn (fresh 2 30 0) b
  obtain ⟨-, hrun, -⟩ := joint_in_every_order hb hdangling hes hdistributed
  exact ⟨b, hb, hdangling, hdistributed, hes, hrun⟩

def pairGroup : List Parked := (relayPair.map (.ofSnapshot · shortRun .dynamic)).mapIdx .mk

/-- Each circuit of the pair fits a unit of one qubit, and their joint state does not. -/
theorem joint_too_large :
    ∃ b, Accepted (fresh 1 30 0) relayPair shortRun b ∧ b.resolution.danglingSends = [] ∧
      b.resolution.isDistributed = true ∧ Delivers (fresh 1 30 0) b b.inTurn ∧
      circuits ((fresh 1 30 0).arrivals b.inTurn) = ["a", "b"] ∧
      ((fresh 1 30 0).after b.inTurn).Admits [.finish 0 0] ∧
      ∀ p ∈ (fresh 1 30 0).arrivals b.inTurn,
        (((fresh 1 30 0).after b.inTurn).next (.finish 0 0)).answer? p.ticket =
          some (.ofError (SimulationError.tooManyQubits 2 1).message) := by
  obtain ⟨b, hb, hdangling, hdistributed⟩ := exists_relayPair (.inl rfl)
  have hturn := inTurn_eq hb hdistributed
  have harrivals : (fresh 1 30 0).arrivals b.inTurn = pairGroup := by rw [hturn]; cbv
  have hrunning : ((fresh 1 30 0).after b.inTurn).running = [pairGroup] := by rw [hturn]; cbv
  have hopen : ((fresh 1 30 0).after b.inTurn).answers = [] := by rw [hturn]; cbv
  have hseed : ((fresh 1 30 0).after b.inTurn).nextSeed = 0 := by rw [hturn]; cbv
  have hmax : ((fresh 1 30 0).after b.inTurn).maxQubits = 1 := Cluster.maxQubits_after ..
  have hrun : Engine.run 1 0 (Cluster.requests pairGroup) shortRun =
      .error (.tooManyQubits 2 1) := by cbv
  have houtcomes : ((fresh 1 30 0).after b.inTurn).outcomes pairGroup 0 =
      pairGroup.map fun p => (p, .ofError (SimulationError.tooManyQubits 2 1).message) := by
    rw [Cluster.outcomes_eq _ (by decide)]
    refine List.map_congr_left fun q _ => ?_
    have hconfig : Cluster.configOf (Cluster.requests pairGroup) = shortRun := rfl
    rw [hmax, hseed, hconfig, Engine.outcomeOf, hrun]
    rfl
  have hgroup : ((fresh 1 30 0).after b.inTurn).running[0]? = some pairGroup := by
    rw [hrunning]
    rfl
  have hlistened (ticket : Nat) : ((fresh 1 30 0).after b.inTurn).hasExpired ticket = false := by
    rw [Cluster.hasExpired, Cluster.expired_after (delivers_inTurn (fresh 1 30 0) b).not_expire]
    rfl
  refine ⟨b, hb, hdangling, hdistributed, delivers_inTurn .., ?_, ⟨?_, trivial⟩, fun p hp => ?_⟩
  · rw [harrivals]
    rfl
  · exact (List.getElem?_eq_some_iff.1 hgroup).1
  · rw [harrivals] at hp
    have hfind : (pairGroup.find? (·.ticket = p.ticket)).isSome := by
      rw [List.find?_isSome]
      exact ⟨p, hp, decide_eq_true rfl⟩
    obtain ⟨q, hq⟩ := Option.isSome_iff_exists.1 hfind
    rw [Cluster.next, Cluster.answer?_complete hgroup, hlistened, houtcomes, Cluster.answer?, hopen,
      List.find?_map]
    show ((pairGroup.find? (·.ticket = p.ticket)).map _).map _ = _
    rw [hq]
    rfl

end QuantumRelay.SubmittedBatch
