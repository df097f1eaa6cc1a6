import QuantumRelay.Proofs.Cluster.Gather
import QuantumRelay.Proofs.Cluster.Timeout
import Mathlib.Data.List.Pairwise

/-!
# What a group that has been taken out comes to

A group that has been taken out is `Carried` for those of its members that are heard: the run of the group
is under way and they have no answer, or they all have the answers that one run gives, each for its own
circuit. Every event keeps this, save for the expiry of a timer of theirs (`carried_next`).

The answer to a circuit is that of its place in the group (`outcomeOf`, `responses_eq`).
-/

namespace QuantumRelay

def Engine.outcomeOf (maxQubits : Nat) (otherwise : UInt64) (group : List RunRequest)
    (config : RunConfig) (id : String) : Except SimulationError Counts :=
  (run maxQubits otherwise group config).map fun counts =>
    counts.getD ((group.map (·.id)).idxOf id) {}

def Response.ofOutcome : Except SimulationError Counts → Float → Response
  | .ok counts, elapsed => .ofCounts counts.map elapsed
  | .error e, _ => .ofError e.message

theorem Engine.outcomeOf_getD (maxQubits : Nat) (otherwise : UInt64) (group : List RunRequest)
    (config : RunConfig) (id : String) :
    outcomeOf maxQubits (config.seed.getD otherwise) group config id =
      outcomeOf maxQubits otherwise group config id := by
  unfold outcomeOf run
  cases config.seed with
  | none => rfl
  | some seed => rfl

namespace Cluster

variable {c : Cluster} {group : List Parked} {heard : Parked → Prop} {p : Parked}

/-! ### Whose answer is whose -/

abbrev configOf (group : List RunRequest) : RunConfig := (group.head?.map (·.config)).getD {}

theorem responses_eq (c : Cluster) {group : List RunRequest} (h : (group.map (·.id)).Nodup)
    (elapsed : Float) : c.responses group elapsed = group.map fun r =>
      .ofOutcome (Engine.outcomeOf c.maxQubits c.nextSeed group (configOf group) r.id) elapsed := by
  unfold responses Engine.outcomeOf
  dsimp only
  cases hrun : Engine.run c.maxQubits c.nextSeed group (configOf group) with
  | error e => rfl
  | ok counts =>
    have hlen := Engine.length_of_run hrun
    refine List.ext_getElem (by rw [List.length_map, List.length_map, hlen]) fun i hi hi' => ?_
    rw [List.length_map] at hi hi'
    have hidx : (group.map (·.id)).idxOf group[i].id = i := by
      have := h.idxOf_getElem i (by rwa [List.length_map])
      rwa [List.getElem_map] at this
    rw [List.getElem_map, List.getElem_map]
    dsimp only [Except.map, Response.ofOutcome]
    rw [hidx, List.getD_eq_getElem?_getD, List.getElem?_eq_getElem hi, Option.getD_some]

theorem outcomes_eq (c : Cluster) (h : (circuits group).Nodup) (elapsed : Float) :
    c.outcomes group elapsed = group.map fun p => (p, .ofOutcome (Engine.outcomeOf c.maxQubits
      c.nextSeed (requests group) (configOf (requests group)) p.request.id) elapsed) := by
  rw [outcomes, responses_eq c (by rwa [map_id_requests]), List.map_map,
    ← List.map_prod_left_eq_zip]
  rfl

/-! ### Until the answer -/

/-- The run of a group is under way and those of its members that are heard wait for their answers, or all
of these have the answers of one run. -/
def Carried (c : Cluster) (group : List Parked) (heard : Parked → Prop) : Prop :=
  (group ∈ c.running ∧
    ∀ p ∈ group, heard p → c.answer? p.ticket = none ∧ c.hasExpired p.ticket = false) ∨
  ∃ otherwise elapsed, ∀ p ∈ group, heard p →
    c.answer? p.ticket = some (.ofOutcome (Engine.outcomeOf c.maxQubits otherwise (requests group)
      (configOf (requests group)) p.request.id) elapsed)

theorem maxQubits_next (c : Cluster) (e : Event) : (c.next e).maxQubits = c.maxQubits := by
  cases e with
  | arrive unit m =>
    cases hjoin : c.joining? unit m with
    | none =>
      obtain ⟨last, ⟨r, heq⟩ | ⟨response, heq⟩⟩ := receive_of_alone hjoin
      · rw [next, heq]
      · rw [next, heq, reply_maxQubits]
    | some r =>
      rw [next, receive_of_joining hjoin]
      exact maxQubits_join ..
  | finish place elapsed =>
    cases hgroup : c.running[place]? with
    | none => rw [next, complete, hgroup]
    | some group =>
      rw [next, complete_of_some hgroup]
      exact (foldl_reply_rest ..).2.2.2.1
  | expire t => rfl
  | giveUp t => rw [next, giveUp, evict_maxQubits, replyError, reply_maxQubits]
  | pass seconds => rfl

theorem maxQubits_after (c : Cluster) (es : List Event) : (c.after es).maxQubits = c.maxQubits := by
  induction es generalizing c with
  | nil => rfl
  | cons e es ih => rw [after_cons, ih, maxQubits_next]

theorem mem_running_next (hgroup : group ∈ c.running) {e : Event}
    (hfinish : ∀ place elapsed, e = .finish place elapsed → c.running[place]? ≠ some group) :
    group ∈ (c.next e).running := by
  cases e with
  | arrive unit m =>
    cases hjoin : c.joining? unit m with
    | none =>
      obtain ⟨last, ⟨r, heq⟩ | ⟨response, heq⟩⟩ := receive_of_alone hjoin
      · rw [next, heq]
        exact List.mem_append_left _ hgroup
      · rw [next, heq, reply_running]
        exact hgroup
    | some r =>
      rw [next, receive_of_joining hjoin]
      exact (running_prefix_join ..).subset hgroup
  | finish place elapsed =>
    cases hplace : c.running[place]? with
    | none => rwa [next, complete, hplace]
    | some other =>
      rw [next, complete_of_some hplace, (foldl_reply_rest ..).2.1]
      obtain ⟨i, hi⟩ := List.mem_iff_getElem?.1 hgroup
      refine List.mem_eraseIdx_iff_getElem?.2 ⟨i, ?_, hi⟩
      rintro rfl
      exact hfinish i elapsed rfl hi
  | expire t => exact hgroup
  | giveUp t =>
    rw [next, giveUp, evict_running, replyError, reply_running]
    exact hgroup
  | pass seconds => exact hgroup

theorem Sound.group_unique {n : Nat} (h : Sound c n) {other : List Parked}
    (hgroup : group ∈ c.running) (hother : other ∈ c.running) (hp : p ∈ group) (hp' : p ∈ other) :
    group = other := by
  by_contra hne
  have : Std.Symm (List.Disjoint (α := Parked)) := ⟨fun _ _ h _ ha hb => h hb ha⟩
  have hdisjoint := (List.nodup_flatten.1 h.running_nodup.of_map).2
  exact hdisjoint.forall hgroup hother hne hp hp'

theorem carried_finish (h : Sound c c.nextTicket) {place : Nat} {elapsed : Float}
    (hgroup : c.running[place]? = some group)
    (hopen : ∀ p ∈ group, heard p → c.answer? p.ticket = none ∧ c.hasExpired p.ticket = false)
    (hnodup : (circuits group).Nodup) : Carried (c.next (.finish place elapsed)) group heard := by
  refine .inr ⟨c.nextSeed, elapsed, fun p hp hheard => ?_⟩
  have hmem : (p, Response.ofOutcome (Engine.outcomeOf c.maxQubits c.nextSeed (requests group)
      (configOf (requests group)) p.request.id) elapsed) ∈ c.outcomes group elapsed := by
    rw [outcomes_eq c hnodup]
    exact List.mem_map_of_mem hp
  obtain ⟨hnone, hexpired⟩ := hopen p hp hheard
  rw [maxQubits_next]
  exact (answers_of_mem_outcomes h hgroup hmem hnone hexpired).2

theorem open_next (h : Sound c c.nextTicket) {e : Event} (he : c.Enabled e) (hgroup : group ∈ c.running)
    (hp : p ∈ group) (hopen : c.answer? p.ticket = none ∧ c.hasExpired p.ticket = false)
    (hfinish : ∀ place elapsed, e = .finish place elapsed → c.running[place]? ≠ some group)
    (hexpire : ∀ t, e = .expire t → t.ticket ≠ p.ticket) :
    (c.next e).answer? p.ticket = none ∧ (c.next e).hasExpired p.ticket = false := by
  refine ⟨?_, hasExpired_next hopen.2 hexpire⟩
  rw [Option.eq_none_iff_forall_ne_some]
  intro r hnext
  have hmem : p ∈ c.running.flatten := List.mem_flatten_of_mem hgroup hp
  have hgiveUp (t : ParkTimer) (het : e = .giveUp t) : t.ticket ≠ p.ticket := by
    subst het
    intro heq
    have := (c.hasExpired_iff p.ticket).2 ⟨t, he, heq⟩
    rw [hopen.2] at this
    cases this
  obtain ⟨place, elapsed, other, rfl, hplace, hr⟩ := answers_taken h hmem ⟨hopen.1, hnext⟩ hgiveUp
  obtain rfl := h.group_unique hgroup (List.mem_of_getElem? hplace) hp (mem_of_mem_outcomes hr)
  exact hfinish place elapsed rfl hplace

/-- Those that are heard have the answers of their run or wait for it, unless a timer of theirs expires. -/
theorem carried_next (h : Sound c c.nextTicket) {e : Event} (he : c.Enabled e)
    (hcarried : Carried c group heard) (hnodup : (circuits group).Nodup)
    (hexpire : ∀ t, e = .expire t → ∀ p ∈ group, heard p → t.ticket ≠ p.ticket) :
    Carried (c.next e) group heard := by
  rcases hcarried with ⟨hgroup, hopen⟩ | ⟨otherwise, elapsed, hanswer⟩
  · by_cases hfinish : ∃ place elapsed, e = .finish place elapsed ∧ c.running[place]? = some group
    · obtain ⟨place, elapsed, rfl, hplace⟩ := hfinish
      exact carried_finish h hplace hopen hnodup
    · have hother (place : Nat) (elapsed : Float) (hee : e = .finish place elapsed) :
          c.running[place]? ≠ some group := fun hplace => hfinish ⟨place, elapsed, hee, hplace⟩
      refine .inl ⟨mem_running_next hgroup hother, fun p hp hheard => ?_⟩
      exact open_next h he hgroup hp (hopen p hp hheard) hother fun t ht => hexpire t ht p hp hheard
  · refine .inr ⟨otherwise, elapsed, fun p hp hheard => ?_⟩
    have hp := hanswer p hp hheard
    rw [maxQubits_next]
    exact answer?_next hp e (Nat.ne_of_lt (h.answer_lt hp))

theorem carried_after (h : Sound c c.nextTicket) {es : List Event} (hes : c.Admits es)
    (hcarried : Carried c group heard) (hnodup : (circuits group).Nodup)
    (hexpire : ∀ t, .expire t ∈ es → ∀ p ∈ group, heard p → t.ticket ≠ p.ticket) :
    Carried (c.after es) group heard := by
  induction es generalizing c with
  | nil => exact hcarried
  | cons e es ih =>
    refine ih (h.next hes.1) hes.2 ?_ fun t ht => hexpire t (List.mem_cons_of_mem _ ht)
    exact carried_next h hes.1 hcarried hnodup fun t het => hexpire t (het ▸ List.mem_cons_self)

theorem Carried.mono {heard' : Parked → Prop} (h : Carried c group heard)
    (himp : ∀ p, heard' p → heard p) : Carried c group heard' :=
  h.imp (And.imp_right fun hopen p hp hheard => hopen p hp (himp p hheard))
    fun ⟨otherwise, elapsed, hanswer⟩ =>
      ⟨otherwise, elapsed, fun p hp hheard => hanswer p hp (himp p hheard)⟩

/-! ### From the first event on -/

theorem Gathered.circuits_nodup {arrived : List Parked} {started : List (List Parked)}
    (h : Gathered c arrived started) (hnodup : (circuits arrived).Nodup) (hgroup : group ∈ started)
    (hp : p ∈ group) : (circuits group).Nodup := by
  rw [← map_id_requests, h.started_eq group hgroup p hp]
  rw [← map_id_requests] at hnodup
  exact List.pairwise_map.2 ((RunRequest.component_sorted hnodup).imp String.ne_of_lt)

theorem carried_arrive (h : Sound c c.nextTicket) (hexpired : c.expired = []) {arrived : List Parked}
    {started : List (List Parked)} (hg : Gathered c arrived started) {e : Event} {q : Parked}
    (he : c.arrival? e = some q) (hnodup : (circuits (arrived ++ [q])).Nodup)
    (hgroup : group ∈ c.starts e) : Carried (c.next e) group fun _ => True := by
  have hg' := (hg.arrive he hnodup).1
  refine .inl ⟨running_arrive he ▸ List.mem_append_right _ hgroup, fun p hp _ => ?_⟩
  have hnew : p ∉ started.flatten := fun hold => by
    have hdisjoint := hg'.started_nodup
    rw [List.flatten_append, List.nodup_append] at hdisjoint
    exact hdisjoint.2.2 p hold p (List.mem_flatten_of_mem hgroup hp) rfl
  have hmem : p ∈ arrived ++ [q] := by
    refine (hg'.started_iff.1 ?_).1
    rw [List.flatten_append]
    exact List.mem_append_right _ (List.mem_flatten_of_mem hgroup hp)
  obtain ⟨unit, m, rfl, hjoin, hticket⟩ := eq_arrive_of_arrival he
  refine ⟨?_, by rw [next, hasExpired, expired_receive, hexpired]; rfl⟩
  rw [next, answer?_receive_of_joining hjoin,
    hg.find?_eq_none (not_mem_of_nodup_append hnodup), Option.map_none, if_neg (by simp),
    Option.or_none]
  rw [List.mem_append, List.mem_singleton] at hmem
  rcases hmem with hmem | rfl
  · refine h.parked_open (hg.find?_iff.2 ⟨hmem, rfl, fun hset => ?_⟩)
    exact hnew (hg.started_iff.2 ⟨hmem, hset⟩)
  · rw [hticket]
    exact h.fresh_ticket.1

theorem expired_after {maxQubits parkTimeout : Nat} {seed : UInt64} {es : List Event}
    (hexpire : ∀ t, .expire t ∉ es) : ((fresh maxQubits parkTimeout seed).after es).expired = [] :=
  List.eq_nil_iff_forall_not_mem.2 fun t ht =>
    (expire_mem_of_expired ht).elim List.not_mem_nil (hexpire t)

theorem giveUp_not_mem {maxQubits parkTimeout : Nat} {seed : UInt64} {es : List Event}
    (hes : (fresh maxQubits parkTimeout seed).Admits es) (hexpire : ∀ t, .expire t ∉ es)
    (t : ParkTimer) : .giveUp t ∉ es := fun ht =>
  (expire_mem_of_giveUp_mem hes ht).elim List.not_mem_nil (hexpire t)

/-- As long as no timer expires, those that have been taken out together have the answers of one run or
wait for it. -/
theorem carried_started {maxQubits parkTimeout : Nat} {seed : UInt64} {es : List Event}
    (hes : (fresh maxQubits parkTimeout seed).Admits es) (hexpire : ∀ t, .expire t ∉ es)
    (hnodup : (circuits ((fresh maxQubits parkTimeout seed).arrivals es)).Nodup)
    (hgroup : group ∈ (fresh maxQubits parkTimeout seed).started es) :
    Carried ((fresh maxQubits parkTimeout seed).after es) group fun _ => True := by
  induction es using List.reverseRecOn with
  | nil => cases hgroup
  | append_singleton es e ih =>
    obtain ⟨hes, he, -⟩ := admits_append.1 hes
    have hexpire' : ∀ t, .expire t ∉ es := fun t ht => hexpire t (List.mem_append_left _ ht)
    have hnodup' := nodup_of_append hnodup
    rw [arrivals_append] at hnodup
    have hg := gathered_after maxQubits parkTimeout seed (giveUp_not_mem hes hexpire') hnodup'
    have hs := sound_after hes
    rw [started_append, List.mem_append] at hgroup
    rw [after_append]
    simp only [arrivals, started, List.append_nil, after_cons, after_nil] at hnodup hgroup ⊢
    rcases hgroup with hgroup | hgroup
    · by_cases hempty : group = []
      · exact .inr ⟨0, 0, fun p hp => absurd (hempty ▸ hp) List.not_mem_nil⟩
      obtain ⟨p, hp⟩ := List.exists_mem_of_ne_nil group hempty
      refine carried_next hs he (ih hes hexpire' hnodup' hgroup)
        (hg.circuits_nodup hnodup' hgroup hp) ?_
      rintro t rfl
      exact absurd (List.mem_append_right _ List.mem_cons_self) (hexpire t)
    · cases harrival : ((fresh maxQubits parkTimeout seed).after es).arrival? e with
      | some q =>
        rw [harrival] at hnodup
        exact carried_arrive hs (expired_after hexpire') hg harrival hnodup hgroup
      | none =>
        rw [starts, harrival, Option.isSome_none, if_neg Bool.false_ne_true] at hgroup
        cases hgroup

end Cluster

end QuantumRelay
