import QuantumRelay.Proofs.Circuit.Parameters
import QuantumRelay.Proofs.Cluster.Sound

/-!
# Updates of a unit

A unit keeps the request that it had last (`last_next`). New parameters for it are taken if they are for
its circuit and fit; then they do what the request with these parameters would do (`receive_update`).
Otherwise they are answered with an error at once, and nothing else changes (`receive_refused`).
-/

namespace QuantumRelay

def RunRequest.rebind (r : RunRequest) (values : List Float) : RunRequest :=
  { r with instructions := Parameters.assign values r.instructions }

namespace Cluster

variable {c : Cluster} {unit : String} {u : ParameterUpdate}

/-! ### What a unit had last -/

theorem last_join (c : Cluster) (ticket : Nat) (r : RunRequest) :
    (c.join ticket r).last = c.last := by
  cases h : (Reach.missing (c.park ticket r).peers r.id).isEmpty with
  | true => rw [join_of_complete h, park_eq]; exact evict_last c r.id
  | false => rw [join_of_missing h, park_eq]; exact evict_last c r.id

theorem last_accept (c : Cluster) (unit : String) (ticket : Nat) (r : RunRequest) :
    (c.accept unit ticket r).last = c.last.insert unit r := by
  unfold accept
  dsimp only
  split
  · exact last_join ..
  · split
    · exact reply_last ..
    · rfl

theorem last_complete (c : Cluster) (place : Nat) (elapsed : Float) :
    (c.complete place elapsed).last = c.last := by
  cases h : c.running[place]? with
  | none => rw [complete, h]
  | some group =>
    rw [complete_of_some h]
    exact (foldl_reply_rest ..).2.2.2.2.2

theorem last_receive (c : Cluster) (unit : String) (m : Message) : (c.receive unit m).2.last =
    match c.admitted? unit m with
    | some r => c.last.insert unit r
    | none => c.last := by
  unfold receive
  cases m with
  | run r => exact last_accept ..
  | update u =>
    have hsame : ({ c with nextTicket := c.nextTicket + 1 } : Cluster).rebound unit u =
        c.rebound unit u := rfl
    dsimp only [admitted?]
    rw [hsame]
    cases c.rebound unit u with
    | error e => exact reply_last ..
    | ok r => exact last_accept ..

def Event.at? (unit : String) : Event → Option Message
  | .arrive unit' m => if unit = unit' then some m else none
  | .finish .. => none
  | .expire _ => none
  | .giveUp _ => none
  | .pass _ => none

def arrivedAt (unit : String) (es : List Event) : List Message := es.filterMap (Event.at? unit)

theorem arrivedAt_concat (unit : String) (es : List Event) (e : Event) :
    arrivedAt unit (es ++ [e]) = arrivedAt unit es ++ (e.at? unit).toList := by
  rw [arrivedAt, List.filterMap_append, List.filterMap_cons]
  cases e.at? unit with
  | none => rfl
  | some m => rfl

theorem arrivedAt_arrive (unit : String) (es : List Event) (m : Message) (later : List Event) :
    arrivedAt unit (es ++ .arrive unit m :: later) =
      arrivedAt unit es ++ m :: arrivedAt unit later := by
  rw [arrivedAt, List.filterMap_append, List.filterMap_cons, Event.at?, if_pos rfl]
  rfl

theorem last_next (c : Cluster) (e : Event) (unit : String) : (c.next e).last.find? unit =
    ((e.at? unit).bind (c.admitted? unit)).or (c.last.find? unit) := by
  cases e with
  | arrive unit' m =>
    rw [next, last_receive, Event.at?]
    by_cases hunit : unit = unit'
    · subst hunit
      rw [if_pos rfl, Option.bind_some]
      cases c.admitted? unit m with
      | none => rfl
      | some r => exact (KeyMap.find?_insert ..).trans (if_pos rfl)
    · rw [if_neg hunit]
      cases c.admitted? unit' m with
      | none => rfl
      | some r => exact (KeyMap.find?_insert ..).trans (if_neg hunit)
  | finish place elapsed =>
    rw [next, last_complete]
    rfl
  | expire t => rfl
  | giveUp t =>
    rw [next, giveUp, evict_last, replyError, reply_last]
    rfl
  | pass seconds => rfl

/-! ### New parameters -/

/-- What a unit has is a request that an update is for: of its circuit, with parameters to replace. -/
def Loaded (c : Cluster) (unit : String) (u : ParameterUpdate) (r : RunRequest) : Prop :=
  c.last.find? unit = some r ∧ r.id = u.id ∧ Parameters.Fits r.instructions u.params

theorem rebound_eq_ok {q : RunRequest} : c.rebound unit u = .ok q ↔
    ∃ r, c.Loaded unit u r ∧ q = r.rebind u.params := by
  unfold rebound Loaded
  cases hlast : c.last.find? unit with
  | none => simp
  | some r =>
    by_cases hid : r.id = u.id
    · have hfilter : (some r).filter (fun r : RunRequest => r.id == u.id) = some r := by
        simp [hid]
      rw [hfilter]
      dsimp only
      cases hbind : Parameters.bind r.id r.instructions u.params with
      | error e =>
        have hnot := (Parameters.bind_eq_error.1 hbind).1
        simp [hnot]
      | ok is =>
        obtain ⟨hfits, rfl⟩ := Parameters.bind_eq_ok.1 hbind
        simp [hid, hfits, RunRequest.rebind, eq_comm]
    · have hfilter : (some r).filter (fun r : RunRequest => r.id == u.id) = none := by
        simp [hid]
      rw [hfilter]
      simp [hid]

theorem rebound_eq_error {e : SimulationError} (h : c.rebound unit u = .error e) :
    ∃ fault, e = .parameters fault := by
  unfold rebound at h
  split at h
  · exact ⟨_, (Except.error.inj h).symm⟩
  · split at h
    · exact ⟨_, (Except.error.inj h).symm⟩
    · cases h

/-- New parameters that fit do what the request with these parameters would do. -/
theorem receive_update {r : RunRequest} (h : c.Loaded unit u r) :
    c.receive unit (.update u) = c.receive unit (.run (r.rebind u.params)) := by
  have hrebound : ({ c with nextTicket := c.nextTicket + 1 } : Cluster).rebound unit u =
      .ok (r.rebind u.params) := rebound_eq_ok.2 ⟨r, h, rfl⟩
  unfold receive
  dsimp only
  rw [hrebound]

/-- New parameters that do not fit are answered with an error, and nothing else changes. -/
theorem receive_refused (h : ∀ r, ¬c.Loaded unit u r) : ∃ fault,
    c.receive unit (.update u) = (c.nextTicket,
      { c with nextTicket := c.nextTicket + 1 }.replyError c.nextTicket (.parameters fault)) := by
  cases hrebound : c.rebound unit u with
  | ok q =>
    obtain ⟨r, hr, -⟩ := rebound_eq_ok.1 hrebound
    exact absurd hr (h r)
  | error e =>
    obtain ⟨fault, rfl⟩ := rebound_eq_error hrebound
    have hrebound' : ({ c with nextTicket := c.nextTicket + 1 } : Cluster).rebound unit u =
        .error (.parameters fault) := hrebound
    refine ⟨fault, ?_⟩
    unfold receive
    dsimp only
    rw [hrebound']

/-- What an update comes to, at a unit of a cluster. -/
structure Updates (c : Cluster) (unit : String) (u : ParameterUpdate) : Prop where
  /-- One that is taken gives the same ticket and the same cluster as the request that the unit had last
  would give with the parameters of the update in instruction order. -/
  taken : ∀ r, c.Loaded unit u r →
    c.receive unit (.update u) = c.receive unit (.run (r.rebind u.params)) ∧
      List.Forall₂ (Instruction.Rebinds u.params) r.instructions
        (r.rebind u.params).instructions ∧
      Parameters.collect (r.rebind u.params).instructions = u.params
  /-- One that is refused is answered with an error, and leaves what is parked, what is run and what the
  units had last. -/
  refused : (∀ r, ¬c.Loaded unit u r) →
    (∃ fault, (c.receive unit (.update u)).2.answer? (c.receive unit (.update u)).1 =
      some (.ofError (SimulationError.parameters fault).message)) ∧
    (c.receive unit (.update u)).2.parked = c.parked ∧
    (c.receive unit (.update u)).2.last = c.last ∧
    (c.receive unit (.update u)).2.running = c.running

theorem updates (h : Sound c c.nextTicket) (unit : String) (u : ParameterUpdate) :
    c.Updates unit u where
  taken r hr :=
    ⟨receive_update hr, Parameters.rebinds_assign hr.2.2.1, Parameters.collect_assign hr.2.2.1⟩
  refused hr := by
    obtain ⟨fault, heq⟩ := receive_refused hr
    rw [heq]
    refine ⟨⟨fault, ?_⟩, reply_parked .., reply_last .., reply_running ..⟩
    have hopen : ({ c with nextTicket := c.nextTicket + 1 } : Cluster).answer? c.nextTicket = none :=
      h.fresh_ticket.1
    rw [replyError, answer?_reply, hopen, Option.none_or, if_pos ⟨rfl, h.fresh_ticket.2.2.2⟩]

end Cluster

end QuantumRelay
