import QuantumRelay.Proofs.Cluster.Gather
import QuantumRelay.Proofs.Cluster.Timeout

/-!
# Requests that nobody completes

A parked request from which a circuit is named that is not parked is `Stranded` once no more requests
come: runs that end leave what is parked, and what is given up only takes more of it away. So it waits
until it is given up itself, and then it is told of missing peers, whether these have come or not
(`stranded_after`).
-/

namespace QuantumRelay.Cluster

open RunRequest (Linked)

variable {c : Cluster} {e : Event} {arrived : List Parked} {p : Parked} {id : String}

/-! ### Timers -/

theorem evict_timers_subset (c : Cluster) (circuit : String) : (c.evict circuit).timers ⊆ c.timers := by
  intro t ht
  cases h : c.parked.find? circuit with
  | none => rwa [evict_of_none h] at ht
  | some old =>
    rw [evict_of_some h, replyError, mem_reply_timers] at ht
    exact ht.1

theorem mem_join_timers {ticket : Nat} {r : RunRequest} {t : ParkTimer}
    (ht : t ∈ (c.join ticket r).timers) :
    t ∈ c.timers ∨ t.ticket = ticket ∧ t.circuit = r.id := by
  cases h : (Reach.missing (c.park ticket r).peers r.id).isEmpty with
  | true =>
    rw [join_of_complete h, park_eq] at ht
    exact .inl (evict_timers_subset c r.id ht)
  | false =>
    rw [join_of_missing h, park_eq, List.mem_append, List.mem_singleton] at ht
    rcases ht with ht | rfl
    · exact .inl (evict_timers_subset c r.id ht)
    · exact .inr ⟨rfl, rfl⟩

theorem mem_timers_next {t : ParkTimer} (ht : t ∈ (c.next e).timers) : t ∈ c.timers ∨
    ∃ q, c.arrival? e = some q ∧ t.ticket = q.ticket ∧ t.circuit = q.request.id := by
  cases e with
  | arrive unit m =>
    rw [next] at ht
    cases hjoin : c.joining? unit m with
    | none =>
      obtain ⟨last, ⟨r, heq⟩ | ⟨response, heq⟩⟩ := receive_of_alone hjoin
      · rw [heq] at ht
        exact .inl ht
      · rw [heq, mem_reply_timers] at ht
        exact .inl ht.1
    | some r =>
      rw [receive_of_joining hjoin] at ht
      refine (mem_join_timers ht).imp id fun h => ⟨⟨c.nextTicket, r⟩, ?_, h⟩
      rw [arrival?, hjoin]
      rfl
  | finish place elapsed =>
    left
    cases hgroup : c.running[place]? with
    | none => rwa [next, complete, hgroup] at ht
    | some group =>
      rw [next, complete_of_some hgroup, mem_foldl_reply_timers] at ht
      exact ht.1
  | expire t' => exact .inl (List.mem_filter.1 ht).1
  | giveUp t' =>
    rw [next, Cluster.giveUp] at ht
    have ht' := evict_timers_subset _ _ ht
    rw [replyError, mem_reply_timers] at ht'
    exact .inl ht'.1
  | pass seconds => exact .inl ht

theorem mem_timers_after {es : List Event} {t : ParkTimer} (ht : t ∈ (c.after es).timers) :
    t ∈ c.timers ∨
      ∃ q ∈ c.arrivals es, t.ticket = q.ticket ∧ t.circuit = q.request.id := by
  induction es generalizing c with
  | nil => exact .inl ht
  | cons e es ih =>
    rcases ih ht with ht | ⟨q, hq, heq⟩
    · refine (mem_timers_next ht).imp id fun ⟨q, hq, heq⟩ => ⟨q, ?_, heq⟩
      rw [arrivals, hq]
      exact List.mem_cons_self
    · exact .inr ⟨q, List.mem_append_right _ hq, heq⟩

/-! ### Stranded requests -/

/-- A parked request from which a circuit is named that is not parked. What is parked has come, and the
only timer of its circuit, whether it has expired or not, is its own. -/
structure Stranded (arrived : List Parked) (p : Parked) (c : Cluster) : Prop where
  parked : c.parked.find? p.request.id = some p
  lacks : ∃ x, Reach.Reaches c.peers p.request.id x ∧ c.parked.find? x = none
  came : ∀ {id q}, c.parked.find? id = some q → q ∈ arrived ∧ q.request.id = id
  timer : ∀ t ∈ c.timers ++ c.expired, t.circuit = p.request.id → t.ticket = p.ticket

/-- A request has been told that peers of its are missing. -/
def TimedOut (arrived : List Parked) (p : Parked) (c : Cluster) : Prop :=
  ∃ missing, missing ≠ [] ∧
    (∀ x ∈ missing, x ≠ p.request.id ∧ Linked (requests arrived) p.request.id x) ∧
    c.answer? p.ticket =
      some (.ofError (SimulationError.peerTimeout p.request.id missing).message)

theorem find?_next_of_find? (harrival : c.arrival? e = none) {q : Parked}
    (hq : (c.next e).parked.find? id = some q) : c.parked.find? id = some q := by
  by_cases hgiveUp : ∃ t, e = .giveUp t
  · obtain ⟨t, rfl⟩ := hgiveUp
    rw [next, find?_giveUp] at hq
    split at hq
    · cases hq
    · exact hq
  · rwa [parked_next harrival fun t ht => hgiveUp ⟨t, ht⟩] at hq

namespace Stranded

theorem next (hs : Stranded arrived p c) (he : c.Enabled e)
    (harrival : c.arrival? e = none) (hgiveUp : ∀ t, e = .giveUp t → t.ticket ≠ p.ticket) :
    Stranded arrived p (c.next e) := by
  have hparked : (c.next e).parked.find? p.request.id = some p := by
    by_cases hother : ∃ t, e = .giveUp t
    · obtain ⟨t, rfl⟩ := hother
      rw [Cluster.next, find?_giveUp, if_neg, hs.parked]
      exact fun heq => hgiveUp t rfl (hs.timer t (List.mem_append_right _ he) heq.symm)
    · rw [parked_next harrival fun t ht => hother ⟨t, ht⟩, hs.parked]
  obtain ⟨x, hx, hnone⟩ := hs.lacks
  refine ⟨hparked, ?_, fun hq => hs.came (find?_next_of_find? harrival hq), fun t ht => ?_⟩
  · refine lacks_of_lacks (c := c) (find?_next_of_find? harrival) hx ?_
    rw [Option.eq_none_iff_forall_ne_some]
    intro q hq
    rw [find?_next_of_find? harrival hq] at hnone
    cases hnone
  · rcases List.mem_append.1 ht with ht | ht
    · rcases mem_timers_next ht with ht | ⟨q, hq, -⟩
      · exact hs.timer t (List.mem_append_left _ ht)
      · rw [harrival] at hq
        cases hq
    · rcases mem_expired_next ht with ht | rfl
      · exact hs.timer t (List.mem_append_right _ ht)
      · exact hs.timer t (List.mem_append_left _ he.1)

theorem giveUp (hs : Stranded arrived p c) (h : Sound c c.nextTicket) {t : ParkTimer}
    (ht : t ∈ c.expired) (heq : t.ticket = p.ticket) : TimedOut arrived p (c.giveUp t) := by
  have hcircuit : t.circuit = p.request.id := (h.expired_parked t ht hs.parked heq.symm).symm
  have hparked : c.parked.find? t.circuit = some p := hcircuit ▸ hs.parked
  refine ⟨Reach.missing c.peers p.request.id, fun hempty => ?_, fun x hx => ?_, ?_⟩
  · obtain ⟨x, hx, hnone⟩ := hs.lacks
    obtain ⟨q, hq⟩ := missing_isEmpty_iff.1 (List.isEmpty_iff.2 hempty) x hx
    rw [hnone] at hq
    cases hq
  · obtain ⟨hreaches, hcontains⟩ := Reach.mem_missing_iff.1 hx
    refine ⟨?_, linked_of_reaches hs.came hreaches⟩
    rintro rfl
    rw [contains_peers_iff.2 ⟨p, hs.parked⟩] at hcontains
    cases hcontains
  · rw [answer?_giveUp_of_parked hparked heq.symm, h.parked_open hs.parked, if_pos heq.symm,
      Option.none_or, timeoutResponse, hcircuit]

end Stranded

theorem TimedOut.after (ht : TimedOut arrived p c) (h : Sound c c.nextTicket) {es : List Event}
    (hes : c.Admits es) : TimedOut arrived p (c.after es) := by
  induction es generalizing c with
  | nil => exact ht
  | cons e es ih =>
    obtain ⟨missing, hne, hmissing, hanswer⟩ := ht
    refine ih ⟨missing, hne, hmissing, ?_⟩ (h.next hes.1) hes.2
    exact answer?_next hanswer e (Nat.ne_of_lt (h.answer_lt hanswer))

/-- As long as no more requests come, a stranded request waits to be given up and then has timed out. -/
theorem stranded_after (hs : Stranded arrived p c) (h : Sound c c.nextTicket) {es : List Event}
    (hes : c.Admits es) (harrivals : c.arrivals es = []) :
    (Stranded arrived p (c.after es) ∧ ∀ t, .giveUp t ∈ es → t.ticket ≠ p.ticket) ∨
      (TimedOut arrived p (c.after es) ∧ ∃ t, .giveUp t ∈ es ∧ t.ticket = p.ticket) := by
  induction es generalizing c with
  | nil => exact .inl ⟨hs, fun t ht => absurd ht List.not_mem_nil⟩
  | cons e es ih =>
    obtain ⟨harrival, harrivals⟩ := List.append_eq_nil_iff.1 harrivals
    have harrival : c.arrival? e = none := Option.toList_eq_nil_iff.1 harrival
    by_cases hgiveUp : ∃ t, e = .giveUp t ∧ t.ticket = p.ticket
    · obtain ⟨t, rfl, heq⟩ := hgiveUp
      have hout := (hs.giveUp h hes.1 heq).after (h.next hes.1) hes.2
      exact .inr ⟨hout, t, List.mem_cons_self, heq⟩
    · have hgiveUp' (t : ParkTimer) (ht : e = .giveUp t) : t.ticket ≠ p.ticket :=
        fun heq => hgiveUp ⟨t, ht, heq⟩
      rcases ih (hs.next hes.1 harrival hgiveUp') (h.next hes.1) hes.2 harrivals with
        ⟨hstill, hnever⟩ | ⟨hout, t, ht, heq⟩
      · refine .inl ⟨hstill, fun t ht => ?_⟩
        rcases List.mem_cons.1 ht with ht | ht
        · exact hgiveUp' t ht.symm
        · exact hnever t ht
      · exact .inr ⟨hout, t, List.mem_cons_of_mem _ ht, heq⟩

end QuantumRelay.Cluster
