import QuantumRelay.Cluster.Network
import QuantumRelay.Proofs.Batch.Submission
import QuantumRelay.Proofs.Cluster.Taken

/-!
# Batches that reach a cluster

`Accepted` says that a batch has been submitted to a fresh cluster with one unit for each circuit, and
`Delivers` that its requests have come, in any order and with any other events between them, while no
timer expired. Then those that have come to be run with their peers are the circuits of the batch if it
is distributed (`requests_perm`), and what has been taken out is told by the batch alone.
-/

namespace QuantumRelay

namespace Cluster

def messages (es : List Event) : List (String × Message) :=
  es.filterMap fun
    | .arrive unit m => some (unit, m)
    | _ => none

/-- The request that a message makes a unit run together with its peers, if it is a request. -/
def dynamicRun? : Message → Option RunRequest
  | .run r => if r.execType = .dynamic then some r else none
  | .update _ => none

theorem requests_arrivals {es : List Event} (c : Cluster)
    (h : ∀ m ∈ messages es, ∃ r, m.2 = .run r) :
    requests (c.arrivals es) = (messages es).filterMap fun m => dynamicRun? m.2 := by
  induction es generalizing c with
  | nil => rfl
  | cons e es ih =>
    rw [arrivals, requests, List.map_append]
    cases e with
    | arrive unit m =>
      have hmessages : messages (.arrive unit m :: es) = (unit, m) :: messages es := rfl
      rw [hmessages] at h ⊢
      obtain ⟨⟨r, rfl⟩, hes⟩ := List.forall_mem_cons.1 h
      have harrival : c.arrival? (.arrive unit (.run r)) =
          (dynamicRun? (.run r)).map (⟨c.nextTicket, ·⟩) := by
        simp [arrival?, joining?, admitted?, dynamicRun?, Option.filter_some]
      rw [harrival, List.filterMap_cons, ← ih (c.next (.arrive unit (.run r))) hes]
      cases dynamicRun? (.run r) with
      | none => rfl
      | some r => rfl
    | finish place elapsed => exact ih _ h
    | expire t => exact ih _ h
    | giveUp t => exact ih _ h
    | pass seconds => exact ih _ h

end Cluster

namespace SubmittedBatch

open Cluster (Event fresh circuits Gathered gathered_after sound_after)
open RunRequest (Linked Refers Settled component)

def requests (b : SubmittedBatch) : List RunRequest := b.jobs.map Job.request

/-- The requests of a batch that are run together with their peers. -/
def dynamicRequests (b : SubmittedBatch) : List RunRequest :=
  if b.resolution.isDistributed then b.requests else []

def messages (b : SubmittedBatch) : List (String × Message) :=
  b.jobs.map fun j => (Cluster.unitId j.endpoint.socket, .run j.request)

/-- A batch is submitted to a cluster with one unit for each of its circuits. -/
def Accepted (c₀ : Cluster) (snapshots : List Snapshot) (config : RunConfig) (b : SubmittedBatch) :
    Prop :=
  (submit snapshots (c₀.endpoints snapshots.length) config { network := c₀ : Session Cluster }).1 =
    .ok b

/-- The requests of a batch reach a cluster in some order, and no timer expires meanwhile. -/
structure Delivers (c₀ : Cluster) (b : SubmittedBatch) (es : List Event) : Prop where
  admits : c₀.Admits es
  messages_perm : (Cluster.messages es).Perm b.messages
  not_expire : ∀ t, .expire t ∉ es

/-- The requests of a batch come in the order in which they are submitted. -/
def inTurn (b : SubmittedBatch) : List Event := b.messages.map fun m => .arrive m.1 m.2

theorem delivers_inTurn (c₀ : Cluster) (b : SubmittedBatch) : Delivers c₀ b b.inTurn := by
  refine ⟨?_, .of_eq ?_, fun t ht => ?_⟩
  · have hadmits (ms : List (String × Message)) (c : Cluster) :
        c.Admits (ms.map fun m => .arrive m.1 m.2) := by
      induction ms generalizing c with
      | nil => trivial
      | cons m ms ih => exact ⟨trivial, ih _⟩
    exact hadmits b.messages c₀
  · rw [inTurn, Cluster.messages, List.filterMap_map]
    exact List.filterMap_some
  · obtain ⟨m, -, heq⟩ := List.mem_map.1 ht
    cases heq

variable {c₀ : Cluster} {snapshots : List Snapshot} {config : RunConfig} {b : SubmittedBatch}
  {es : List Event}

theorem exists_accepted {resolution : Resolution} {jobs : List Job}
    (hresolution : Resolution.ofBatch .report snapshots = .ok resolution)
    (hjobs : makeJobs config resolution.execType 0
      (snapshots.zip (c₀.endpoints snapshots.length)) = .ok jobs) :
    ∃ b, Accepted c₀ snapshots config b ∧ b.resolution = resolution := by
  refine exists_submit rfl ?_ hresolution hjobs
  rw [Cluster.endpoints, List.length_map, List.length_range]

/-! ### What a batch is made of -/

section accepted

variable (hb : Accepted c₀ snapshots config b)

include hb in
theorem requests_eq : b.requests = snapshots.map (.ofSnapshot · config b.resolution.execType) :=
  (submit_eq_ok hb).2.2.1

include hb in
theorem requests_ids : b.requests.map (·.id) = snapshots.map (·.id) := by
  rw [requests_eq hb, List.map_map]
  rfl

include hb in
theorem requests_nodup : (b.requests.map (·.id)).Nodup := by
  rw [requests_ids hb]
  exact (Resolution.ofBatch_eq_ok (submit_eq_ok hb).1).1

include hb in
theorem refers_iff {x y : String} : Refers b.requests x y ↔ Snapshot.Names snapshots x y := by
  rw [requests_eq hb]
  constructor
  · rintro ⟨r, hr, rfl, hy⟩
    obtain ⟨s, hs, rfl⟩ := List.mem_map.1 hr
    exact ⟨s, hs, rfl, hy⟩
  · rintro ⟨s, hs, rfl, hy⟩
    exact ⟨_, List.mem_map_of_mem hs, rfl, hy⟩

include hb in
theorem request_of_mem {r : RunRequest} (hr : r ∈ b.requests) :
    r.config = config ∧ r.execType = b.resolution.execType ∧
      ∀ i ∈ r.instructions, Circuit.Takes r.numQubits r.numClbits r.id i := by
  rw [requests_eq hb] at hr
  obtain ⟨s, hs, rfl⟩ := List.mem_map.1 hr
  exact ⟨rfl, rfl, (submit_eq_ok hb).2.1 s hs⟩

include hb in
theorem messages_eq : b.messages = snapshots.mapIdx fun k s =>
    (Cluster.unitId k, .run (.ofSnapshot s config b.resolution.execType)) := by
  obtain ⟨-, -, hrequests, hendpoints⟩ := submit_eq_ok hb
  have hzip : b.messages = (b.jobs.map (·.endpoint)).zipWith
      (fun e r => (Cluster.unitId e.socket, Message.run r)) (b.jobs.map Job.request) := by
    rw [List.zipWith_map, List.zipWith_self]
    rfl
  rw [hzip, hrequests, hendpoints, Cluster.endpoints]
  refine List.ext_getElem (by simp) fun i hi hi' => ?_
  simp [Cluster.endpoint]

include hb in
theorem inTurn_eq (hdistributed : b.resolution.isDistributed = true) :
    b.inTurn = snapshots.mapIdx fun k s =>
      .arrive (Cluster.unitId k) (.run (.ofSnapshot s config .dynamic)) := by
  rw [inTurn, messages_eq hb, Resolution.execType, if_pos hdistributed,
    List.mapIdx_eq_zipIdx_map, List.mapIdx_eq_zipIdx_map, List.map_map]
  rfl

include hb in
theorem dynamicRun?_messages :
    b.messages.filterMap (fun m => Cluster.dynamicRun? m.2) = b.dynamicRequests := by
  rw [messages, List.filterMap_map, dynamicRequests, requests]
  have hexec (j : Job) (hj : j ∈ b.jobs) :
      Cluster.dynamicRun? (.run j.request) =
        if b.resolution.isDistributed then some j.request else none := by
    rw [Cluster.dynamicRun?, (request_of_mem hb (List.mem_map_of_mem hj)).2.1, Resolution.execType]
    cases b.resolution.isDistributed with
    | true => rfl
    | false => rfl
  cases hdistributed : b.resolution.isDistributed with
  | true =>
    rw [if_pos rfl, ← List.filterMap_eq_map]
    refine List.filterMap_congr fun j hj => ?_
    rw [Function.comp_apply, hexec j hj, hdistributed, if_pos rfl]
    rfl
  | false =>
    rw [if_neg Bool.false_ne_true, List.filterMap_eq_nil_iff]
    intro j hj
    rw [Function.comp_apply, hexec j hj, hdistributed, if_neg Bool.false_ne_true]

end accepted

/-! ### What has come of it -/

section delivered

variable {maxQubits parkTimeout : Nat} {seed : UInt64} {p : Parked}
  (hb : Accepted (fresh maxQubits parkTimeout seed) snapshots config b)
  (hes : Delivers (fresh maxQubits parkTimeout seed) b es)

include hb hes in
theorem requests_perm :
    (Cluster.requests ((fresh maxQubits parkTimeout seed).arrivals es)).Perm b.dynamicRequests := by
  rw [Cluster.requests_arrivals, ← dynamicRun?_messages hb]
  · exact hes.messages_perm.filterMap _
  · intro m hm
    obtain ⟨j, -, rfl⟩ := List.mem_map.1 (hes.messages_perm.mem_iff.1 hm)
    exact ⟨j.request, rfl⟩

include hb hes in
theorem circuits_nodup : (circuits ((fresh maxQubits parkTimeout seed).arrivals es)).Nodup := by
  rw [← Cluster.map_id_requests, ((requests_perm hb hes).map _).nodup_iff, dynamicRequests]
  split
  · exact requests_nodup hb
  · exact .nil

include hb hes in
theorem gathered : Gathered ((fresh maxQubits parkTimeout seed).after es)
    ((fresh maxQubits parkTimeout seed).arrivals es)
    ((fresh maxQubits parkTimeout seed).started es) :=
  gathered_after maxQubits parkTimeout seed (Cluster.giveUp_not_mem hes.admits hes.not_expire)
    (circuits_nodup hb hes)

include hb hes in
/-- Whoever has come to be run with its peers is in a distributed batch, all of which has come. -/
theorem mem_requests_iff (hp : p ∈ (fresh maxQubits parkTimeout seed).arrivals es) (r : RunRequest) :
    r ∈ Cluster.requests ((fresh maxQubits parkTimeout seed).arrivals es) ↔ r ∈ b.requests := by
  have hperm := requests_perm hb hes
  rw [hperm.mem_iff, dynamicRequests, if_pos]
  by_contra hnot
  rw [dynamicRequests, if_neg hnot] at hperm
  have := hperm.mem_iff.1 (List.mem_map_of_mem hp)
  cases this

include hb hes in
theorem request_mem (hp : p ∈ (fresh maxQubits parkTimeout seed).arrivals es) :
    p.request ∈ b.requests := (mem_requests_iff hb hes hp _).1 (List.mem_map_of_mem hp)

include hb hes in
theorem settled_iff (hp : p ∈ (fresh maxQubits parkTimeout seed).arrivals es) {id : String} :
    Settled (Cluster.requests ((fresh maxQubits parkTimeout seed).arrivals es)) id ↔
      Settled b.requests id :=
  RunRequest.settled_congr (mem_requests_iff hb hes hp)

include hb hes in
theorem find?_eq_some_iff (hp : p ∈ (fresh maxQubits parkTimeout seed).arrivals es) :
    ((fresh maxQubits parkTimeout seed).after es).parked.find? p.request.id = some p ↔
      ¬Settled b.requests p.request.id := by
  rw [(gathered hb hes).find?_iff, settled_iff hb hes hp]
  exact ⟨fun h => h.2.2, fun h => ⟨hp, rfl, h⟩⟩

include hb hes in
theorem find?_eq_none (hset : ∀ p ∈ (fresh maxQubits parkTimeout seed).arrivals es,
    Settled b.requests p.request.id) (id : String) :
    ((fresh maxQubits parkTimeout seed).after es).parked.find? id = none := by
  rw [Option.eq_none_iff_forall_ne_some]
  intro p hp
  obtain ⟨hmem, rfl⟩ := (gathered hb hes).mem hp
  exact (find?_eq_some_iff hb hes hmem).1 hp (hset p hmem)

include hb hes in
theorem requests_started {group : List Parked}
    (hgroup : group ∈ (fresh maxQubits parkTimeout seed).started es) (hp : p ∈ group) :
    Cluster.requests group = component b.requests p.request.id := by
  have hg := gathered hb hes
  have hmem := (hg.started_iff.1 (List.mem_flatten_of_mem hgroup hp)).1
  rw [hg.started_eq group hgroup p hp]
  refine RunRequest.component_congr ?_ (requests_nodup hb) (mem_requests_iff hb hes hmem)
  rw [Cluster.map_id_requests]
  exact circuits_nodup hb hes

include hb hes in
theorem exists_group (hp : p ∈ (fresh maxQubits parkTimeout seed).arrivals es)
    (hset : Settled b.requests p.request.id) :
    ∃ group ∈ (fresh maxQubits parkTimeout seed).started es, p ∈ group ∧
      Cluster.requests group = component b.requests p.request.id := by
  obtain ⟨group, hgroup, hmem⟩ :=
    List.mem_flatten.1 ((gathered hb hes).started_iff.2 ⟨hp, (settled_iff hb hes hp).2 hset⟩)
  exact ⟨group, hgroup, hmem, requests_started hb hes hgroup hmem⟩

/-- The timer of a request does not go off among events. -/
def Heard (later : List Event) (p : Parked) : Prop := ∀ t, .expire t ∈ later → t.ticket ≠ p.ticket

/-- The run of a group is under way and its members have no answers; or they all have the answers that one
run of their component gives, each for its circuit, drawn from the seed of the batch if there is one. This
is said of the members whose timers do not go off. -/
def Served (maxQubits : Nat) (config : RunConfig) (b : SubmittedBatch) (group : List Parked)
    (later : List Event) (c : Cluster) : Prop :=
  (group ∈ c.running ∧ ∀ p ∈ group, Heard later p → c.answer? p.ticket = none) ∨
    ∃ draws elapsed, (∀ s, config.seed = some s → draws = s) ∧
      ∀ p ∈ group, Heard later p →
        c.answer? p.ticket = some (.ofOutcome (Engine.outcomeOf maxQubits draws
          (component b.requests p.request.id) config p.request.id) elapsed)

include hb hes in
theorem configOf_started {group : List Parked}
    (hgroup : group ∈ (fresh maxQubits parkTimeout seed).started es) (hp : p ∈ group) :
    Cluster.configOf (Cluster.requests group) = config := by
  have hself : p.request ∈ Cluster.requests group := List.mem_map_of_mem hp
  obtain ⟨r, rest, hcons⟩ := List.exists_cons_of_ne_nil (List.ne_nil_of_mem hself)
  have hr : r ∈ component b.requests p.request.id := by
    rw [← requests_started hb hes hgroup hp, hcons]
    exact List.mem_cons_self
  rw [Cluster.configOf, hcons, List.head?_cons, Option.map_some, Option.getD_some]
  exact (request_of_mem hb (RunRequest.mem_component_iff.1 hr).1).1

include hb hes in
/-- Whoever has been taken out together is served together. -/
theorem served_after {group : List Parked}
    (hgroup : group ∈ (fresh maxQubits parkTimeout seed).started es) {later : List Event}
    (hlater : ((fresh maxQubits parkTimeout seed).after es).Admits later) :
    Served maxQubits config b group later
      (((fresh maxQubits parkTimeout seed).after es).after later) := by
  by_cases hempty : group = []
  · exact .inr ⟨config.seed.getD 0, 0, fun s hs => by rw [hs, Option.getD_some],
      fun p hp => absurd (hempty ▸ hp) List.not_mem_nil⟩
  obtain ⟨q, hq⟩ := List.exists_mem_of_ne_nil group hempty
  have hstarted := Cluster.carried_started hes.admits hes.not_expire (circuits_nodup hb hes) hgroup
  have hnodup := (gathered hb hes).circuits_nodup (circuits_nodup hb hes) hgroup hq
  have hcarried := Cluster.carried_after (sound_after hes.admits) hlater
    (hstarted.mono fun p (_ : Heard later p) => trivial) hnodup fun t ht p _ hheard => hheard t ht
  rcases hcarried with ⟨hrunning, hopen⟩ | ⟨otherwise, elapsed, hanswer⟩
  · exact .inl ⟨hrunning, fun p hp hheard => (hopen p hp hheard).1⟩
  · refine .inr ⟨config.seed.getD otherwise, elapsed, fun s hs => by rw [hs, Option.getD_some],
      fun p hp hheard => ?_⟩
    rw [hanswer p hp hheard, configOf_started hb hes hgroup hp, requests_started hb hes hgroup hp,
      Cluster.maxQubits_after, Cluster.maxQubits_after, Engine.outcomeOf_getD]
    rfl

end delivered

end SubmittedBatch

end QuantumRelay
