import QuantumRelay.Proofs.Cluster.Component
import QuantumRelay.Proofs.Cluster.Event
import QuantumRelay.Proofs.Cluster.Operation
import QuantumRelay.Proofs.Cluster.Reach
import Mathlib.Data.List.Induction

/-!
# Who is taken out when

As long as no request is given up and no circuit comes twice, what is parked is told by the requests that
have come (`Gathered`): those whose circuits are not settled among them are parked, all others have
been taken out, in groups that are the components of their members. A request that comes starts the
component of its circuit if it settles it, and nothing otherwise (`Gathered.arrive`).

The invariant behind it is `lacks`: from every parked circuit on, one is named that is not parked. So a
new request is the only one that can complete a group, and what is reached from it is its component.
-/

namespace QuantumRelay.Cluster

open RunRequest (Linked Settled component)

/-! ### Groups -/

/-- The group that an event takes out, if it takes one out. -/
def starts (c : Cluster) (e : Event) : List (List Parked) :=
  if (c.arrival? e).isSome then (c.next e).running.drop c.running.length else []

def started (c : Cluster) : List Event → List (List Parked)
  | [] => []
  | e :: es => c.starts e ++ (c.next e).started es

theorem started_append (c : Cluster) (es more : List Event) :
    c.started (es ++ more) = c.started es ++ (c.after es).started more := by
  induction es generalizing c with
  | nil => rfl
  | cons e es ih => rw [List.cons_append, started, ih, started, List.append_assoc, after_cons]

abbrev requests (l : List Parked) : List RunRequest := l.map (·.request)

abbrev circuits (l : List Parked) : List String := l.map (·.request.id)

/-- What is parked and has been taken out, when these have come. -/
structure Gathered (c : Cluster) (arrived : List Parked) (started : List (List Parked)) : Prop where
  find?_iff : ∀ {id p}, c.parked.find? id = some p ↔
    p ∈ arrived ∧ p.request.id = id ∧ ¬Settled (requests arrived) id
  lacks : ∀ {id p}, c.parked.find? id = some p →
    ∃ x, Reach.Reaches c.peers id x ∧ c.parked.find? x = none
  started_iff : ∀ {p}, p ∈ started.flatten ↔
    p ∈ arrived ∧ Settled (requests arrived) p.request.id
  started_nodup : started.flatten.Nodup
  started_eq : ∀ group ∈ started, ∀ p ∈ group,
    requests group = component (requests arrived) p.request.id

/-! ### What is parked and who it names -/

variable {c c' : Cluster} {arrived : List Parked} {id x y : String}

theorem refers_peers_iff {a b : String} :
    Reach.Refers c.peers a b ↔ ∃ p, c.parked.find? a = some p ∧ b ∈ p.request.peers := by
  simp only [Reach.Refers, peers, KeyMap.find?_map, Option.map_eq_some_iff]
  constructor
  · rintro ⟨_, ⟨p, hp, rfl⟩, hb⟩
    exact ⟨p, hp, hb⟩
  · rintro ⟨p, hp, hb⟩
    exact ⟨_, ⟨p, hp, rfl⟩, hb⟩

theorem contains_peers_iff : c.peers.contains id = true ↔ ∃ p, c.parked.find? id = some p := by
  rw [peers, KeyMap.contains_map, KeyMap.contains_iff]

theorem missing_isEmpty_iff : (Reach.missing c.peers id).isEmpty = true ↔
    ∀ x, Reach.Reaches c.peers id x → ∃ p, c.parked.find? x = some p := by
  simp only [Reach.missing_isEmpty_iff, contains_peers_iff]

theorem reaches_mono (h : ∀ {id p}, c.parked.find? id = some p → c'.parked.find? id = some p)
    (hx : Reach.Reaches c.peers id x) : Reach.Reaches c'.peers id x := by
  refine Relation.ReflTransGen.mono (p := Reach.Refers c'.peers) (fun a b hab => ?_) id x hx
  obtain ⟨p, hp, hb⟩ := refers_peers_iff.1 hab
  exact refers_peers_iff.2 ⟨p, h hp, hb⟩

/-- Less that is parked leaves something to be lacked: the first circuit on the way that is gone. -/
theorem lacks_of_lacks (h : ∀ {id p}, c'.parked.find? id = some p → c.parked.find? id = some p)
    (hx : Reach.Reaches c.peers id x) (hnone : c'.parked.find? x = none) :
    ∃ x, Reach.Reaches c'.peers id x ∧ c'.parked.find? x = none := by
  induction hx using Relation.ReflTransGen.head_induction_on with
  | refl => exact ⟨x, .refl, hnone⟩
  | @head a b hab _ ih =>
    cases ha : c'.parked.find? a with
    | none => exact ⟨a, .refl, ha⟩
    | some p =>
      obtain ⟨x', hx', hnone'⟩ := ih
      obtain ⟨q, hq, hb⟩ := refers_peers_iff.1 hab
      obtain rfl : p = q := Option.some.inj ((h ha).symm.trans hq)
      exact ⟨x', hx'.head (refers_peers_iff.2 ⟨p, ha, hb⟩), hnone'⟩

theorem linked_of_reaches
    (h : ∀ {id p}, c.parked.find? id = some p → p ∈ arrived ∧ p.request.id = id)
    (hx : Reach.Reaches c.peers id x) : Linked (requests arrived) id x := by
  refine Relation.ReflTransGen.mono (p := RunRequest.Refers _) (fun a b hab => ?_) id x hx
  obtain ⟨p, hp, hb⟩ := refers_peers_iff.1 hab
  exact ⟨p.request, List.mem_map_of_mem (h hp).1, (h hp).2, hb⟩

theorem eq_of_id_eq (hnodup : (circuits arrived).Nodup) {p q : Parked} (hp : p ∈ arrived)
    (hq : q ∈ arrived) (h : p.request.id = q.request.id) : p = q :=
  List.inj_on_of_nodup_map hnodup hp hq h

theorem reaches_of_linked (hnodup : (circuits arrived).Nodup)
    (h : ∀ {id p}, c.parked.find? id = some p → p ∈ arrived ∧ p.request.id = id)
    (hall : ∀ x, Reach.Reaches c.peers id x → ∃ p, c.parked.find? x = some p)
    (hx : Linked (requests arrived) id x) : Reach.Reaches c.peers id x := by
  induction hx with
  | refl => exact .refl
  | tail _ hb ih =>
    obtain ⟨p, hp⟩ := hall _ ih
    obtain ⟨r, hr, hid, hpeer⟩ := hb
    obtain ⟨q, hq, rfl⟩ := List.mem_map.1 hr
    obtain rfl := eq_of_id_eq hnodup (h hp).1 hq ((h hp).2.trans hid.symm)
    exact ih.tail (refers_peers_iff.2 ⟨p, hp, hpeer⟩)

/-! ### A new request -/

theorem map_id_requests (l : List Parked) : (requests l).map (·.id) = circuits l := List.map_map

theorem requests_append (l : List Parked) (q : Parked) :
    requests (l ++ [q]) = requests l ++ [q.request] := List.map_append

theorem nodup_of_append {es more : List Event} (h : (circuits (c.arrivals (es ++ more))).Nodup) :
    (circuits (c.arrivals es)).Nodup := by
  rw [arrivals_append, circuits, List.map_append] at h
  exact (List.nodup_append.1 h).1

theorem not_mem_of_nodup_append {q : Parked} (hnodup : (circuits (arrived ++ [q])).Nodup) :
    q.request.id ∉ circuits arrived := by
  rw [circuits, List.map_append, List.nodup_append] at hnodup
  exact fun hmem => hnodup.2.2 _ hmem _ List.mem_cons_self rfl

namespace Gathered

variable {started : List (List Parked)} {q : Parked}

theorem congr (h : Gathered c arrived started) (hparked : c'.parked = c.parked) :
    Gathered c' arrived started := by
  have hpeers : c'.peers = c.peers := by rw [peers, hparked, peers]
  refine ⟨?_, ?_, h.started_iff, h.started_nodup, h.started_eq⟩
  · rw [hparked]
    exact h.find?_iff
  · rw [hparked, hpeers]
    exact h.lacks

theorem mem (h : Gathered c arrived started) {p : Parked} (hp : c.parked.find? id = some p) :
    p ∈ arrived ∧ p.request.id = id :=
  ⟨(h.find?_iff.1 hp).1, (h.find?_iff.1 hp).2.1⟩

theorem find?_eq_none (h : Gathered c arrived started) (hx : x ∉ circuits arrived) :
    c.parked.find? x = none := by
  rw [Option.eq_none_iff_forall_ne_some]
  intro p hp
  obtain ⟨hmem, rfl⟩ := h.mem hp
  exact hx (List.mem_map_of_mem hmem)

variable (h : Gathered c arrived started) (hnodup : (circuits (arrived ++ [q])).Nodup)
  (hpark : ∀ id, c'.parked.find? id = if id = q.request.id then some q else c.parked.find? id)

include hpark in
theorem park_self : c'.parked.find? q.request.id = some q := by rw [hpark, if_pos rfl]

include h hnodup hpark in
theorem park_keeps {p : Parked} (hp : c.parked.find? id = some p) :
    c'.parked.find? id = some p := by
  rw [hpark, if_neg, hp]
  rintro rfl
  rw [h.find?_eq_none (not_mem_of_nodup_append hnodup)] at hp
  cases hp

include h hpark in
theorem park_mem {p : Parked} (hp : c'.parked.find? id = some p) :
    p ∈ arrived ++ [q] ∧ p.request.id = id := by
  rw [hpark] at hp
  split at hp
  · next hid =>
    obtain rfl := Option.some.inj hp
    exact ⟨List.mem_append_right _ List.mem_cons_self, hid.symm⟩
  · exact ⟨List.mem_append_left _ (h.mem hp).1, (h.mem hp).2⟩

include h hnodup hpark in
/-- A new request lacks nothing if and only if its circuit is settled. -/
theorem park_complete_iff : (Reach.missing c'.peers q.request.id).isEmpty = true ↔
    Settled (requests (arrived ++ [q])) q.request.id := by
  have hnew : q.request.id ∉ circuits arrived := not_mem_of_nodup_append hnodup
  rw [missing_isEmpty_iff]
  constructor
  · intro hall x hx
    have hreaches := reaches_of_linked hnodup (h.park_mem hpark) hall hx
    obtain ⟨p, hp⟩ := hall x hreaches
    obtain ⟨hmem, rfl⟩ := h.park_mem hpark hp
    refine ⟨List.mem_map_of_mem (List.mem_map_of_mem hmem), ?_⟩
    by_cases hself : p.request.id = q.request.id
    · rw [hself]
    -- What was parked before lacks something, and that can only be the new circuit.
    · rw [hpark, if_neg hself] at hp
      obtain ⟨z, hz, hnone⟩ := h.lacks hp
      have hz' := reaches_mono (h.park_keeps hnodup hpark) hz
      obtain ⟨p', hp'⟩ := hall z (hreaches.trans hz')
      have hzq : z = q.request.id := by
        by_contra hne
        rw [hpark, if_neg hne, hnone] at hp'
        cases hp'
      exact hzq ▸ linked_of_reaches (h.park_mem hpark) hz'
  · intro hsettled x hx
    have hlinked := linked_of_reaches (h.park_mem hpark) hx
    obtain ⟨hmem, hback⟩ := hsettled x hlinked
    cases hfind : c'.parked.find? x with
    | some p => exact ⟨p, rfl⟩
    | none =>
      -- What has come and is not parked has been settled without the new circuit.
      exfalso
      have hne : x ≠ q.request.id := by
        rintro rfl
        rw [park_self hpark] at hfind
        cases hfind
      rw [hpark, if_neg hne] at hfind
      rw [map_id_requests, circuits, List.map_append, List.mem_append, List.map_singleton,
        List.mem_singleton] at hmem
      obtain ⟨p, hp, rfl⟩ := List.mem_map.1 (hmem.resolve_right hne)
      have hold : Settled (requests arrived) p.request.id := by
        by_contra hnot
        rw [h.find?_iff.2 ⟨hp, rfl, hnot⟩] at hfind
        cases hfind
      rw [← map_id_requests] at hnew
      rw [requests_append] at hback
      exact hnew (hold _ ((hold.linked_append_iff hnew).1 hback)).1

include hnodup in
theorem settled_append_iff : Settled (requests (arrived ++ [q])) id ↔
    Settled (requests arrived) id ∨ (Settled (requests (arrived ++ [q])) q.request.id ∧
      Linked (requests (arrived ++ [q])) q.request.id id) := by
  rw [requests_append]
  refine RunRequest.settled_append ?_
  rw [map_id_requests]
  exact not_mem_of_nodup_append hnodup

include h hnodup in
theorem started_eq_append {group : List Parked} (hgroup : group ∈ started) {p : Parked}
    (hp : p ∈ group) :
    requests group = component (requests (arrived ++ [q])) p.request.id := by
  have hsettled := (h.started_iff.1 (List.mem_flatten_of_mem hgroup hp)).2
  rw [h.started_eq group hgroup p hp, requests_append, hsettled.component_append]
  rwa [← requests_append, map_id_requests]

include h hnodup hpark in
theorem wait (hq : ¬Settled (requests (arrived ++ [q])) q.request.id) :
    Gathered c' (arrived ++ [q]) started := by
  have hsettled {id : String} :
      Settled (requests (arrived ++ [q])) id ↔ Settled (requests arrived) id := by
    rw [settled_append_iff hnodup, or_iff_left fun hnew => hq hnew.1]
  have hlacks : ∃ z, Reach.Reaches c'.peers q.request.id z ∧ c'.parked.find? z = none := by
    by_contra hnot
    refine hq ((h.park_complete_iff hnodup hpark).1 (missing_isEmpty_iff.2 fun z hz => ?_))
    rw [← Option.isSome_iff_exists, Option.isSome_iff_ne_none]
    exact fun hnone => hnot ⟨z, hz, hnone⟩
  refine ⟨fun {id p} => ?_, fun {id p} hp => ?_, fun {p} => ?_, h.started_nodup, ?_⟩
  · constructor
    · intro hp
      obtain ⟨hmem, hid⟩ := h.park_mem hpark hp
      refine ⟨hmem, hid, fun hset => ?_⟩
      rw [hpark] at hp
      split at hp
      · next hself => exact hq (hself ▸ hset)
      · exact (h.find?_iff.1 hp).2.2 (hsettled.1 hset)
    · rintro ⟨hmem, rfl, hset⟩
      rw [List.mem_append, List.mem_singleton] at hmem
      rcases hmem with hmem | rfl
      · exact h.park_keeps hnodup hpark (h.find?_iff.2 ⟨hmem, rfl, hset ∘ hsettled.2⟩)
      · exact park_self hpark
  · by_cases hid : id = q.request.id
    · rwa [hid]
    · rw [hpark, if_neg hid] at hp
      obtain ⟨x, hx, hnone⟩ := h.lacks hp
      have hx' := reaches_mono (h.park_keeps hnodup hpark) hx
      by_cases hself : x = q.request.id
      · obtain ⟨z, hz, hz'⟩ := hlacks
        exact ⟨z, hx'.trans (hself ▸ hz), hz'⟩
      · exact ⟨x, hx', by rw [hpark, if_neg hself, hnone]⟩
  · rw [h.started_iff, hsettled, List.mem_append, List.mem_singleton]
    refine and_congr_left fun hset => (or_iff_left ?_).symm
    rintro rfl
    exact hq (hsettled.2 hset)
  · exact fun group hgroup p hp => h.started_eq_append hnodup hgroup hp

/-! ### The group that is taken out -/

abbrev taken (c : Cluster) (id : String) : List Parked :=
  (Reach.group c.peers id).filterMap c.parked.find?

variable (hq : Settled (requests (arrived ++ [q])) q.request.id)

include h hnodup hpark hq in
theorem mem_group_iff : x ∈ Reach.group c'.peers q.request.id ↔
    Linked (requests (arrived ++ [q])) q.request.id x := by
  have hall := missing_isEmpty_iff.1 ((h.park_complete_iff hnodup hpark).2 hq)
  rw [Reach.mem_group_iff, contains_peers_iff]
  constructor
  · rintro ⟨hx, -⟩
    exact linked_of_reaches (h.park_mem hpark) hx
  · intro hx
    have hreaches := reaches_of_linked hnodup (h.park_mem hpark) hall hx
    exact ⟨hreaches, hall x hreaches⟩

include h hnodup hpark hq in
theorem mem_taken_iff {p : Parked} : p ∈ taken c' q.request.id ↔
    p ∈ arrived ++ [q] ∧ Linked (requests (arrived ++ [q])) q.request.id p.request.id := by
  rw [taken, List.mem_filterMap]
  constructor
  · rintro ⟨x, hx, hp⟩
    obtain ⟨hmem, rfl⟩ := h.park_mem hpark hp
    exact ⟨hmem, (h.mem_group_iff hnodup hpark hq).1 hx⟩
  · rintro ⟨hmem, hlinked⟩
    have hall := missing_isEmpty_iff.1 ((h.park_complete_iff hnodup hpark).2 hq)
    obtain ⟨p', hp'⟩ := hall _ (reaches_of_linked hnodup (h.park_mem hpark) hall hlinked)
    obtain ⟨hmem', hid⟩ := h.park_mem hpark hp'
    obtain rfl := eq_of_id_eq hnodup hmem' hmem hid
    exact ⟨_, (h.mem_group_iff hnodup hpark hq).2 hlinked, hp'⟩

include h hpark in
theorem taken_sorted :
    (taken c' q.request.id).Pairwise fun a b => a.request.id < b.request.id := by
  refine List.Pairwise.filterMap _ (fun x y hxy p hp p' hp' => ?_) (Reach.group_sorted ..)
  rw [(h.park_mem hpark hp).2, (h.park_mem hpark hp').2]
  exact hxy

include h hnodup hpark hq in
/-- What is taken out is the component of the new request. -/
theorem requests_taken : requests (taken c' q.request.id) =
    component (requests (arrived ++ [q])) q.request.id := by
  refine RunRequest.eq_component ?_ (List.pairwise_map.2 (h.taken_sorted hpark)) fun r => ?_
  · rwa [map_id_requests]
  · rw [List.mem_map, List.mem_map]
    constructor
    · rintro ⟨p, hp, rfl⟩
      obtain ⟨hmem, hlinked⟩ := (h.mem_taken_iff hnodup hpark hq).1 hp
      exact ⟨⟨p, hmem, rfl⟩, hlinked⟩
    · rintro ⟨⟨p, hmem, rfl⟩, hlinked⟩
      exact ⟨p, (h.mem_taken_iff hnodup hpark hq).2 ⟨hmem, hlinked⟩, rfl⟩

include h hnodup hpark hq in
theorem find?_start_taken {p : Parked}
    (hp : (c'.start (Reach.group c'.peers q.request.id)).parked.find? id = some p) :
    id ∉ Reach.group c'.peers q.request.id ∧ c.parked.find? id = some p := by
  rw [find?_start] at hp
  split at hp
  · cases hp
  · next hid =>
    rw [hpark, if_neg] at hp
    · exact ⟨hid, hp⟩
    · rintro rfl
      exact hid ((h.mem_group_iff hnodup hpark hq).2 .refl)

include h hnodup hpark hq in
theorem take : Gathered (c'.start (Reach.group c'.peers q.request.id)) (arrived ++ [q])
    (started ++ [taken c' q.request.id]) := by
  have hnew : q.request.id ∉ circuits arrived := not_mem_of_nodup_append hnodup
  have hgroup {x : String} := h.mem_group_iff hnodup hpark hq (x := x)
  refine ⟨fun {id p} => ?_, fun {id p} hp => ?_, fun {p} => ?_, ?_, fun group hmem p hp => ?_⟩
  · constructor
    · intro hp
      obtain ⟨hid, hp⟩ := h.find?_start_taken hnodup hpark hq hp
      obtain ⟨hmem, rfl, hset⟩ := h.find?_iff.1 hp
      refine ⟨List.mem_append_left _ hmem, rfl, fun hset' => ?_⟩
      rcases (settled_append_iff hnodup).1 hset' with hold | ⟨-, hlinked⟩
      · exact hset hold
      · exact hid (hgroup.2 hlinked)
    · rintro ⟨hmem, rfl, hset⟩
      have hnot : p.request.id ∉ Reach.group c'.peers q.request.id := fun hid =>
        hset ((settled_append_iff hnodup).2 (.inr ⟨hq, hgroup.1 hid⟩))
      rw [find?_start, if_neg hnot]
      rw [List.mem_append, List.mem_singleton] at hmem
      rcases hmem with hmem | rfl
      · refine h.park_keeps hnodup hpark (h.find?_iff.2 ⟨hmem, rfl, fun hold => ?_⟩)
        exact hset ((settled_append_iff hnodup).2 (.inl hold))
      · exact absurd hq hset
  · obtain ⟨x, hx, hnone⟩ := h.lacks (h.find?_start_taken hnodup hpark hq hp).2
    refine lacks_of_lacks (c := c) (fun hp' => (h.find?_start_taken hnodup hpark hq hp').2) hx ?_
    rw [find?_start]
    split
    · rfl
    · next hx' =>
      rw [hpark, if_neg, hnone]
      rintro rfl
      exact hx' (hgroup.2 .refl)
  · rw [List.flatten_append, List.mem_append, List.flatten_singleton, h.started_iff,
      h.mem_taken_iff hnodup hpark hq]
    constructor
    · rintro (⟨hmem, hold⟩ | ⟨hmem, hlinked⟩)
      · exact ⟨List.mem_append_left _ hmem, (settled_append_iff hnodup).2 (.inl hold)⟩
      · exact ⟨hmem, (settled_append_iff hnodup).2 (.inr ⟨hq, hlinked⟩)⟩
    · rintro ⟨hmem, hset⟩
      rcases (settled_append_iff hnodup).1 hset with hold | ⟨-, hlinked⟩
      · refine .inl ⟨(List.mem_append.1 hmem).resolve_right fun hself => ?_, hold⟩
        rw [List.mem_singleton.1 hself] at hold
        exact hnew (map_id_requests arrived ▸ hold.mem)
      · exact .inr ⟨hmem, hlinked⟩
  · rw [List.flatten_append, List.flatten_singleton, List.nodup_append]
    refine ⟨h.started_nodup, ?_, fun a ha b hb hab => ?_⟩
    · refine (h.taken_sorted hpark).imp fun hlt heq => ?_
      rw [heq] at hlt
      exact String.lt_irrefl _ hlt
    -- What had been taken out before was settled, so it is not linked to the new circuit.
    · subst hab
      have hback := (hq _ ((h.mem_taken_iff hnodup hpark hq).1 hb).2).2
      obtain ⟨hmem, hold⟩ := h.started_iff.1 ha
      rw [← map_id_requests] at hnew
      rw [requests_append, hold.linked_append_iff hnew] at hback
      exact hnew (hold _ hback).1
  · rw [List.mem_append, List.mem_singleton] at hmem
    rcases hmem with hmem | rfl
    · exact h.started_eq_append hnodup hmem hp
    · rw [h.requests_taken hnodup hpark hq]
      refine (hq.component_eq ?_ ((h.mem_taken_iff hnodup hpark hq).1 hp).2).symm
      rwa [map_id_requests]

/-! ### Events -/

theorem arrive (h : Gathered c arrived started) {e : Event} (he : c.arrival? e = some q)
    (hnodup : (circuits (arrived ++ [q])).Nodup) :
    Gathered (c.next e) (arrived ++ [q]) (started ++ c.starts e) ∧
    (Settled (requests (arrived ++ [q])) q.request.id → ∃ group, c.starts e = [group] ∧
      requests group = component (requests (arrived ++ [q])) q.request.id) ∧
    (¬Settled (requests (arrived ++ [q])) q.request.id → c.starts e = []) := by
  have hstarts : c.starts e = (c.next e).running.drop c.running.length := by
    rw [starts, he, Option.isSome_some, if_pos rfl]
  rw [hstarts]
  obtain ⟨unit, m, rfl, hjoin, hticket⟩ := eq_arrive_of_arrival he
  rw [next, receive_of_joining hjoin, ← hticket]
  generalize hc₁ : { c with
    nextTicket := q.ticket + 1, last := c.last.insert unit q.request : Cluster } = c₁
  have h₁ : Gathered c₁ arrived started := h.congr (by rw [← hc₁])
  have hrunning : (c₁.park q.ticket q.request).running = c.running := by
    rw [park_eq, ← hc₁]
    exact evict_running ..
  have hpark := c₁.find?_park q.ticket q.request
  cases hmissing : (Reach.missing (c₁.park q.ticket q.request).peers q.request.id).isEmpty with
  | true =>
    have hq := (h₁.park_complete_iff hnodup hpark).1 hmissing
    have hnext : (c₁.join q.ticket q.request).running =
        c.running ++ [taken (c₁.park q.ticket q.request) q.request.id] := by
      rw [join_of_complete hmissing, ← hrunning]
      rfl
    rw [hnext, List.drop_left, join_of_complete hmissing]
    exact ⟨h₁.take hnodup hpark hq,
      fun _ => ⟨_, rfl, h₁.requests_taken hnodup hpark hq⟩, absurd hq⟩
  | false =>
    have hq : ¬Settled (requests (arrived ++ [q])) q.request.id := fun hset => by
      have := (h₁.park_complete_iff hnodup hpark).2 hset
      rw [hmissing] at this
      cases this
    have hnext : (c₁.join q.ticket q.request).running = c.running := by
      rw [join_of_missing hmissing, ← hrunning]
    rw [hnext, List.drop_length, List.append_nil, join_of_missing hmissing]
    exact ⟨(h₁.wait hnodup hpark hq).congr rfl, fun hset => absurd hset hq, fun _ => rfl⟩

end Gathered

theorem parked_next {e : Event} (he : c.arrival? e = none) (hgiveUp : ∀ t, e ≠ .giveUp t) :
    (c.next e).parked = c.parked := by
  cases e with
  | arrive unit m =>
    rw [arrival?, Option.map_eq_none_iff] at he
    obtain ⟨last, ⟨r, heq⟩ | ⟨response, heq⟩⟩ := receive_of_alone he
    · rw [next, heq]
    · rw [next, heq, reply_parked]
  | finish place elapsed =>
    cases hgroup : c.running[place]? with
    | none => rw [next, complete, hgroup]
    | some group =>
      rw [next, complete_of_some hgroup]
      exact (foldl_reply_rest ..).1
  | expire t => rfl
  | giveUp t => exact absurd rfl (hgiveUp t)
  | pass seconds => rfl

theorem running_arrive {e : Event} {q : Parked} (he : c.arrival? e = some q) :
    (c.next e).running = c.running ++ c.starts e := by
  rw [starts, he, Option.isSome_some, if_pos rfl]
  obtain ⟨unit, m, rfl, hjoin, hticket⟩ := eq_arrive_of_arrival he
  rw [next, receive_of_joining hjoin]
  obtain ⟨groups, hgroups⟩ := running_prefix_join
    { c with nextTicket := c.nextTicket + 1, last := c.last.insert unit q.request } c.nextTicket
    q.request
  rw [← hgroups, List.drop_left]

theorem gathered_fresh (maxQubits parkTimeout : Nat) (seed : UInt64) :
    Gathered (fresh maxQubits parkTimeout seed) [] [] where
  find?_iff := ⟨nofun, fun h => absurd h.1 List.not_mem_nil⟩
  lacks h := by cases h
  started_iff := ⟨nofun, fun h => absurd h.1 List.not_mem_nil⟩
  started_nodup := .nil
  started_eq group h := absurd h List.not_mem_nil

/-- What is parked and has been taken out after events is told by the requests that have come. -/
theorem gathered_after (maxQubits parkTimeout : Nat) (seed : UInt64) {es : List Event}
    (hgiveUp : ∀ t, .giveUp t ∉ es)
    (hnodup : (circuits ((fresh maxQubits parkTimeout seed).arrivals es)).Nodup) :
    Gathered ((fresh maxQubits parkTimeout seed).after es)
      ((fresh maxQubits parkTimeout seed).arrivals es)
      ((fresh maxQubits parkTimeout seed).started es) := by
  induction es using List.reverseRecOn with
  | nil => exact gathered_fresh maxQubits parkTimeout seed
  | append_singleton es e ih =>
    have hes := ih (fun t ht => hgiveUp t (List.mem_append_left _ ht)) (nodup_of_append hnodup)
    rw [arrivals_append] at hnodup ⊢
    rw [after_append, started_append]
    simp only [arrivals, started, List.append_nil, after_cons, after_nil] at hnodup ⊢
    cases he : ((fresh maxQubits parkTimeout seed).after es).arrival? e with
    | some q =>
      rw [he] at hnodup
      exact (hes.arrive he hnodup).1
    | none =>
      rw [starts, he, Option.isSome_none, if_neg Bool.false_ne_true, Option.toList_none,
        List.append_nil, List.append_nil]
      refine hes.congr (parked_next he ?_)
      rintro t rfl
      exact hgiveUp t (List.mem_append_right _ List.mem_cons_self)

end QuantumRelay.Cluster
