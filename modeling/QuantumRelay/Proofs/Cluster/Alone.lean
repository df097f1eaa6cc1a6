import QuantumRelay.Proofs.Cluster.Stranded
import QuantumRelay.Proofs.Cluster.Taken

/-!
# Requests that relay with nobody

A request that relays with nobody is taken out as soon as it comes, however it is to be run, and it is
the only one of its group (`receive_eq_of_alone`). No timer is ever set for it, so it is answered
what a run of this request alone gives (`carried_of_alone`), and how it was to be run plays no part in
that (`outcomeOf_runAs`).
-/

namespace QuantumRelay

/-! ### How a request is run plays no part in what its run gives -/

def RunRequest.runAs (execType : ExecType) (r : RunRequest) : RunRequest := { r with execType }

theorem RunRequest.map_id_runAs (execType : ExecType) (group : List RunRequest) :
    (group.map (runAs execType)).map (·.id) = group.map (·.id) := List.map_map

namespace Layout

variable {R : Type} [Scalar R] (execType : ExecType)

theorem checkInstructions_runAs (ids : List String) (r : RunRequest) (is : List Instruction) :
    checkInstructions ids (r.runAs execType) is = checkInstructions ids r is := by
  induction is with
  | nil => rfl
  | cons i rest ih =>
    rw [checkInstructions, checkInstructions, ih]
    rfl

theorem checkRequests_runAs (ids : List String) (group : List RunRequest) :
    checkRequests ids (group.map (RunRequest.runAs execType)) = checkRequests ids group := by
  induction group with
  | nil => rfl
  | cons r rest ih =>
    rw [List.map_cons, checkRequests, checkRequests, ih, checkInstructions_runAs]
    rfl

theorem place_runAs (ids : List String) (offset : Nat) (group : List RunRequest) :
    (place ids offset (group.map (RunRequest.runAs execType)) : Except SimulationError (List (Member R))) =
      place ids offset group := by
  induction group generalizing offset with
  | nil => rfl
  | cons r rest ih =>
    rw [List.map_cons, place, place]
    show (tasksOf ids offset r.instructions >>= fun tasks =>
      place ids (offset + r.numQubits.toNat) (rest.map (RunRequest.runAs execType)) >>= fun members =>
        pure (⟨r.id, r.numClbits.toNat, tasks⟩ :: members)) = _
    rw [ih]

theorem ofGroup_runAs (maxQubits : Nat) (group : List RunRequest) :
    (ofGroup maxQubits (group.map (RunRequest.runAs execType)) : Except SimulationError (Layout R)) =
      ofGroup maxQubits group := by
  have hblocks : qubitsOf (group.map (RunRequest.runAs execType)) = qubitsOf group :=
    congrArg (List.foldr (· + ·) 0) List.map_map
  have hchannels : channelsOf (group.map (RunRequest.runAs execType)) = channelsOf group :=
    congrArg (List.foldr (· + ·) 0) List.map_map
  unfold ofGroup
  dsimp only
  rw [RunRequest.map_id_runAs, hblocks, hchannels, checkRequests_runAs, place_runAs]

end Layout

theorem Engine.run_runAs (maxQubits : Nat) (otherwise : UInt64) (execType : ExecType)
    (group : List RunRequest) (config : RunConfig) :
    run maxQubits otherwise (group.map (RunRequest.runAs execType)) config =
      run maxQubits otherwise group config := by
  have hcounts : (group.map (RunRequest.runAs execType)).map (fun _ => ({} : Counts)) =
      group.map fun _ => {} := List.map_map
  unfold run simulate
  rw [Layout.ofGroup_runAs, hcounts]

theorem Engine.outcomeOf_runAs (maxQubits : Nat) (otherwise : UInt64) (execType : ExecType)
    (group : List RunRequest) (config : RunConfig) (id : String) :
    outcomeOf maxQubits otherwise (group.map (RunRequest.runAs execType)) config id =
      outcomeOf maxQubits otherwise group config id := by
  unfold outcomeOf
  rw [run_runAs, RunRequest.map_id_runAs]

/-! ### Groups of one -/

/-- A request that relays with nobody. -/
structure RunRequest.Alone (r : RunRequest) : Prop where
  relay : ∀ i ∈ r.instructions, i.relay = none
  peers : r.peers = []

namespace Cluster

variable {c : Cluster} {unit : String} {m : Message} {q : RunRequest}

theorem receive_of_admitted (h : c.admitted? unit m = some q) : c.receive unit m =
    (c.nextTicket, { c with nextTicket := c.nextTicket + 1 }.accept unit c.nextTicket q) := by
  unfold receive
  cases m with
  | run r =>
    obtain rfl := Option.some.inj h
    rfl
  | update u =>
    have hrebound : ({ c with nextTicket := c.nextTicket + 1 } : Cluster).rebound unit u = .ok q := by
      cases hu : c.rebound unit u with
      | error e =>
        rw [admitted?, hu] at h
        cases h
      | ok r =>
        rw [admitted?, hu] at h
        obtain rfl := Option.some.inj h
        exact hu
    dsimp only
    rw [hrebound]

theorem find?_relay_eq_none (h : q.Alone) : q.instructions.find? (·.relay.isSome) = none := by
  rw [List.find?_eq_none]
  intro i hi
  rw [h.relay i hi]
  exact Bool.false_ne_true

theorem reaches_iff_of_alone {ticket : Nat} (h : q.Alone) {x : String} :
    Reach.Reaches (c.park ticket q).peers q.id x ↔ x = q.id := by
  constructor
  · intro hx
    induction hx with
    | refl => rfl
    | tail _ hstep ih =>
      subst ih
      obtain ⟨p, hp, hb⟩ := refers_peers_iff.1 hstep
      rw [find?_park, if_pos rfl] at hp
      obtain rfl := Option.some.inj hp
      rw [h.peers] at hb
      cases hb
  · rintro rfl
    exact .refl

theorem join_of_alone {ticket : Nat} (h : q.Alone) :
    c.join ticket q = (c.park ticket q).start [q.id] := by
  have hparked : (c.park ticket q).parked.find? q.id = some ⟨ticket, q⟩ := by
    rw [find?_park, if_pos rfl]
  have hmissing : (Reach.missing (c.park ticket q).peers q.id).isEmpty = true := by
    rw [missing_isEmpty_iff]
    intro x hx
    rw [(reaches_iff_of_alone h).1 hx]
    exact ⟨_, hparked⟩
  have hgroup : Reach.group (c.park ticket q).peers q.id = [q.id] := by
    refine (Reach.group_sorted ..).eq_of_mem_iff (List.pairwise_singleton _ _) fun x => ?_
    rw [Reach.mem_group_iff, reaches_iff_of_alone h, List.mem_singleton, and_iff_left_iff_imp]
    rintro rfl
    exact contains_peers_iff.2 ⟨_, hparked⟩
  rw [join_of_complete hmissing, hgroup]

/-- What is parked under the circuit of a request is dropped before the request is run with its peers. -/
def makeRoom (c : Cluster) (q : RunRequest) : Cluster :=
  match q.execType with
  | .dynamic => c.evict q.id
  | .offloading => c

theorem makeRoom_cases (c : Cluster) (q : RunRequest) :
    c.makeRoom q = c ∨ c.makeRoom q = c.evict q.id := by
  unfold makeRoom
  split
  · exact .inr rfl
  · exact .inl rfl

theorem makeRoom_of_none (h : c.parked.find? q.id = none) : c.makeRoom q = c := by
  obtain heq | heq := makeRoom_cases c q
  · exact heq
  · rw [heq, evict_of_none h]

theorem maxQubits_makeRoom (c : Cluster) (q : RunRequest) :
    (c.makeRoom q).maxQubits = c.maxQubits := by
  obtain heq | heq := makeRoom_cases c q
  · rw [heq]
  · rw [heq, evict_maxQubits]

theorem timers_makeRoom (c : Cluster) (q : RunRequest) : (c.makeRoom q).timers ⊆ c.timers := by
  obtain heq | heq := makeRoom_cases c q
  · rw [heq]
    exact List.Subset.refl _
  · rw [heq]
    exact evict_timers_subset c q.id

theorem find?_of_makeRoom {id : String} {p : Parked}
    (h : (c.makeRoom q).parked.find? id = some p) : c.parked.find? id = some p := by
  obtain heq | heq := makeRoom_cases c q
  · rwa [heq] at h
  · rw [heq, find?_evict] at h
    split at h
    · cases h
    · exact h

theorem evict_with (c : Cluster) (circuit : String) (nextTicket : Nat) (last : KeyMap RunRequest) :
    { c with nextTicket, last }.evict circuit = { c.evict circuit with nextTicket, last } := by
  cases h : c.parked.find? circuit with
  | none => rw [evict_of_none h, @evict_of_none { c with nextTicket, last } circuit h]
  | some old =>
    rw [evict_of_some h, @evict_of_some { c with nextTicket, last } circuit old h]
    exact reply_comm { c with parked := c.parked.erase circuit } old.ticket _
      (f := fun c => { c with nextTicket, last }) (fun _ _ _ => rfl) rfl rfl rfl

theorem receive_eq_of_alone (h : c.admitted? unit m = some q) (halone : q.Alone) :
    c.receive unit m = (c.nextTicket, { c.makeRoom q with
      nextTicket := c.nextTicket + 1
      last := c.last.insert unit q
      running := c.running ++ [[⟨c.nextTicket, q⟩]] }) := by
  rw [receive_of_admitted h]
  unfold accept makeRoom
  dsimp only
  cases q.execType with
  | dynamic =>
    have hnone : (c.evict q.id).parked.find? q.id = none := by rw [find?_evict, if_pos rfl]
    dsimp only
    rw [join_of_alone halone, start, park_eq, evict_with]
    dsimp only
    rw [List.foldl_cons, List.foldl_nil, KeyMap.erase_insert, KeyMap.erase_of_find?_eq_none hnone,
      evict_running, List.filterMap_cons, KeyMap.find?_insert_self]
    rfl
  | offloading =>
    have hnone := find?_relay_eq_none halone
    dsimp only
    rw [hnone]

theorem answer?_receive_of_sound (h : Sound c c.nextTicket) (hadmitted : c.admitted? unit m = some q)
    (halone : q.Alone) : (c.receive unit m).2.answer? c.nextTicket = none := by
  rw [receive_eq_of_alone hadmitted halone]
  show (c.makeRoom q).answer? c.nextTicket = none
  obtain heq | heq := makeRoom_cases c q
  · rw [heq]
    exact h.fresh_ticket.1
  · rw [heq, answer?_evict, h.fresh_ticket.1, Option.none_or, if_neg]
    rintro ⟨hparked, -⟩
    obtain ⟨p, hp, hticket⟩ := Option.map_eq_some_iff.1 hparked
    exact h.fresh_ticket.2.1 hp hticket

/-! ### Until the answer -/

theorem nextTicket_le_next (c : Cluster) (e : Event) : c.nextTicket ≤ (c.next e).nextTicket := by
  cases e with
  | arrive unit m =>
    rw [next, nextTicket_receive]
    exact Nat.le_succ _
  | finish place elapsed => exact Nat.le_of_eq (nextTicket_complete ..).symm
  | expire t => exact Nat.le_refl _
  | giveUp t => exact Nat.le_of_eq (nextTicket_giveUp ..).symm
  | pass seconds => exact Nat.le_refl _

theorem expire_ne_of_unset {ticket : Nat} (hlt : ticket < c.nextTicket)
    (hunset : ∀ t ∈ c.timers, t.ticket ≠ ticket) {es : List Event} (hes : c.Admits es) :
    ∀ t, .expire t ∈ es → t.ticket ≠ ticket := by
  induction es generalizing c with
  | nil => exact fun t ht => absurd ht List.not_mem_nil
  | cons e es ih =>
    obtain ⟨he, hes⟩ := hes
    have hnext : ∀ t ∈ (c.next e).timers, t.ticket ≠ ticket := by
      intro t ht
      rcases mem_timers_next ht with ht | ⟨p, hp, hticket, -⟩
      · exact hunset t ht
      · obtain ⟨-, -, -, -, hnew⟩ := eq_arrive_of_arrival hp
        rw [hticket, hnew]
        exact Nat.ne_of_gt hlt
    intro t ht
    rcases List.mem_cons.1 ht with rfl | ht
    · exact hunset t he.1
    · exact ih (Nat.lt_of_lt_of_le hlt (nextTicket_le_next c e)) hnext hes t ht

theorem hasExpired_makeRoom (c : Cluster) (q : RunRequest) (ticket : Nat) :
    (c.makeRoom q).hasExpired ticket = c.hasExpired ticket := by
  obtain heq | heq := makeRoom_cases c q
  · rw [heq]
  · rw [heq, hasExpired, evict_expired, hasExpired]

/-- A request that relays with nobody is answered what its run alone gives, and until then this run is
under way. -/
theorem carried_of_alone {maxQubits parkTimeout : Nat} {seed : UInt64} {before later : List Event}
    (hes : (fresh maxQubits parkTimeout seed).Admits (before ++ .arrive unit m :: later))
    (hc : (fresh maxQubits parkTimeout seed).after before = c)
    (hadmitted : c.admitted? unit m = some q) (halone : q.Alone) :
    Carried ((fresh maxQubits parkTimeout seed).after (before ++ .arrive unit m :: later))
      [⟨c.nextTicket, q⟩] fun _ => True := by
  obtain ⟨hbefore, harrive, hlater⟩ := admits_append.1 hes
  have hsound := sound_after hbefore
  rw [after_append, after_cons]
  rw [hc] at hsound harrive hlater ⊢
  have hreceive := receive_eq_of_alone hadmitted halone
  refine carried_after (hsound.next harrive) hlater (.inl ⟨?_, fun p hp _ => ?_⟩)
    (List.nodup_singleton _) fun t ht p hp _ => ?_
  · rw [next, hreceive]
    exact List.mem_append_right _ List.mem_cons_self
  · obtain rfl := List.mem_singleton.1 hp
    refine ⟨answer?_receive_of_sound hsound hadmitted halone, ?_⟩
    rw [next, hreceive]
    exact (hasExpired_makeRoom c q _).trans hsound.fresh_ticket.2.2.2
  · obtain rfl := List.mem_singleton.1 hp
    refine expire_ne_of_unset ?_ (fun t ht => ?_) hlater t ht
    · rw [next, nextTicket_receive]
      exact Nat.lt_succ_self _
    · rw [next, hreceive] at ht
      exact Nat.ne_of_lt (hsound.timer_lt (timers_makeRoom c q ht))

end Cluster

end QuantumRelay
