import QuantumRelay.Proofs.Circuit.WellFormed
import QuantumRelay.Proofs.Cluster.Alone
import QuantumRelay.Proofs.Cluster.Update
import QuantumRelay.Proofs.Exchange.Response
import QuantumRelay.Proofs.Job.Orderly

/-!
# A job and its unit

New parameters are dealt out twice: by the job to its circuit when it sends them, and by the unit to the
request that it had last when they come. At a unit that nobody else sends to, both stay the same
(`find?_last_after`), because the vectors of a job fit its circuit whichever parameters it has
(`Asks.withParameters_eq_ok`, `rebind_request`).

If the circuit relays with nobody, each message is answered what a run of the request alone gives. So
the job makes of it what a job that is made anew from the circuit with these parameters makes of its
first answer (`Follows`).
-/

namespace QuantumRelay

/-! ### Answers, timing aside -/

namespace RunResult

def untimed (r : RunResult) : RunResult := { r with timeTaken := 0 }

theorem parse_ofOutcome (outcome : Except SimulationError Counts) (elapsed : Float) (s : Snapshot)
    (endpoint : String) : parse (Response.ofOutcome outcome elapsed).toJson s endpoint =
      match outcome with
      | .error e => .error (.remote endpoint e.message)
      | .ok packed => (countKeys s {} packed.map.entries).map fun counts =>
        { circuitId := s.id, endpoint, counts, timeTaken := elapsed, parameters := s.parameters } := by
  unfold parse
  rw [Response.ofJson?_toJson]
  cases outcome with
  | ok packed => rfl
  | error e => rfl

end RunResult

namespace Backend

variable {b : Backend} {s : Snapshot}

theorem fault?_eq_none_iff : b.fault? s = none ↔
    ¬b.numQubits < s.numQubits ∧ (s.instructions.any fun i => !b.supports i.name) = false := by
  unfold fault?
  split
  · next hsize => simp [hsize]
  · next hsize => simp [hsize]

theorem fault?_assign {values : List Float}
    (hlen : values.length = (Parameters.collect s.instructions).length) (h : b.fault? s = none) :
    b.fault? { s with instructions := Parameters.assign values s.instructions } = none := by
  obtain ⟨hsize, hany⟩ := fault?_eq_none_iff.1 h
  refine fault?_eq_none_iff.2 ⟨hsize, ?_⟩
  refine (Instruction.Rebinds.any_eq (Parameters.rebinds_assign hlen) ?_).trans hany
  exact fun _ _ hi => by rw [hi.name_eq]

end Backend

namespace Job

variable {j₀ j : Job} {m : Message}

/-- What a job makes of an answer, timing aside. -/
def read (j : Job) (r : Response) : Except JobError RunResult :=
  (j.deliver (.answer r.toJson)).map RunResult.untimed

/-- What a job makes of a run of its request alone, timing aside. -/
def lone (j : Job) (maxQubits : Nat) (seed : UInt64) : Except JobError RunResult :=
  j.read (.ofOutcome (Engine.outcomeOf maxQubits seed [j.request] j.config j.snapshot.id) 0)

theorem read_ofOutcome (j : Job) (outcome : Except SimulationError Counts) (elapsed : Float) :
    j.read (.ofOutcome outcome elapsed) = j.read (.ofOutcome outcome 0) := by
  unfold read deliver
  dsimp only
  rw [RunResult.parse_ofOutcome, RunResult.parse_ofOutcome]
  cases outcome with
  | error e => rfl
  | ok packed =>
    dsimp only
    cases RunResult.countKeys j.snapshot {} packed.map.entries with
    | error e => rfl
    | ok counts =>
      show ((RunResult.logged _).map _) = ((RunResult.logged _).map _)
      unfold RunResult.logged RunResult.shots
      dsimp only
      cases counts.total with
      | error stop => rfl
      | ok shots => rfl

/-- The run of a job's request alone is under way, or its ticket has the answer that this run gives. The
run draws from the seed of the settings if there is one. -/
def Answered (j : Job) (c : Cluster) (ticket : Nat) : Prop :=
  ([⟨ticket, j.request⟩] ∈ c.running ∧ c.answer? ticket = none) ∨
    ∃ r seed, c.answer? ticket = some r ∧ (∀ s, j.config.seed = some s → seed = s) ∧
      j.read r = j.lone c.maxQubits seed

theorem answered_of_carried {c : Cluster} {ticket : Nat}
    (h : c.Carried [⟨ticket, j.request⟩] fun _ => True) : j.Answered c ticket := by
  rcases h with ⟨hrunning, hopen⟩ | ⟨otherwise, elapsed, hanswer⟩
  · exact .inl ⟨hrunning, (hopen _ List.mem_cons_self trivial).1⟩
  · have hmine := hanswer _ List.mem_cons_self trivial
    refine .inr ⟨_, j.config.seed.getD otherwise, hmine, fun s hs => ?_, ?_⟩
    · rw [hs, Option.getD_some]
    · rw [lone, read_ofOutcome, Engine.outcomeOf_getD]
      rfl

/-! ### What a message asks for -/

theorem rebind_request (h : Asks j₀ m) (values : List Float) :
    (j₀.asOf m).request.rebind values = (j₀.asOf (j₀.updateOf values)).request := by
  have hagain := h.assign_asked values
  show { (j₀.asOf m).request with
    instructions := Parameters.assign values (j₀.asked m).instructions } = _
  rw [hagain]
  cases h with
  | run => rfl
  | update => rfl

section made

variable {id : String} {endpoint : Endpoint} {s : Snapshot} {config : RunConfig} {execType : ExecType}
  (hmade : ofExecType id endpoint s config execType = .ok j₀)

include hmade in
theorem ofExecType_asked (h : Asks j₀ m) (id' : String) (execType' : ExecType) :
    ofExecType id' j₀.endpoint (j₀.asked m) j₀.config execType' =
      .ok { id := id', endpoint := j₀.endpoint, snapshot := j₀.asked m, config := j₀.config,
            execType := execType' } := by
  have hnormalized := normalized_asked hmade h
  obtain ⟨snapshot, -, hconfig, hbackend, rfl⟩ := ofExecType_eq_ok.1 hmade
  refine ofExecType_eq_ok.2 ⟨_, hnormalized, hconfig, ?_, rfl⟩
  cases h with
  | run => exact hbackend
  | update hfits => exact Backend.fault?_assign hfits.1 hbackend

include hmade in
theorem alone_asked (h : Asks j₀ m) (hrelay : j₀.snapshot.hasRelay = false) :
    (j₀.asOf m).request.Alone := by
  have hnone : ∀ i ∈ (j₀.asked m).instructions, i.relay = none := by
    have hany : (j₀.asked m).hasRelay = false := by
      cases h with
      | run => exact hrelay
      | update hfits =>
        refine (Instruction.Rebinds.any_eq (Parameters.rebinds_assign hfits.1) ?_).trans hrelay
        exact fun _ _ hi => by rw [hi.relay_eq]
    simpa [Snapshot.hasRelay] using hany
  obtain ⟨_, hsnapshot, -⟩ := ofExecType_eq_ok.1 (ofExecType_asked hmade h id execType)
  refine ⟨hnone, List.filterMap_eq_nil_iff.2 fun i hi => ?_⟩
  obtain ⟨spec, hspec⟩ := (Snapshot.normalized_eq_ok hsnapshot).1 i hi
  have hpeer := (Instruction.peer_of_validate hspec).1
  rwa [hnone i hi, Option.isSome_none, Option.isSome_eq_false_iff, Option.isNone_iff_eq_none] at hpeer

end made

end Job

/-! ### What comes to a unit -/

namespace Job

open Cluster (Event fresh arrivedAt arrivedAt_concat)

variable {j₀ j : Job} {m : Message} {c : Cluster} {unit : String}

theorem admitted?_updateOf (h : Asks j₀ m) (hlast : c.last.find? unit = some (j₀.asOf m).request)
    {values : List Float} (hfits : Parameters.Fits j₀.snapshot.instructions values) :
    c.admitted? unit (j₀.updateOf values) = some (j₀.asOf (j₀.updateOf values)).request := by
  have hrebound : c.rebound unit ⟨j₀.snapshot.id, values⟩ =
      .ok ((j₀.asOf m).request.rebind values) :=
    Cluster.rebound_eq_ok.2 ⟨_, ⟨hlast, asked_id j₀ m, h.fits_iff.2 hfits⟩, rfl⟩
  show (c.rebound unit ⟨j₀.snapshot.id, values⟩).toOption = _
  rw [hrebound, rebind_request h]
  rfl

section script

variable {vectors : List (List Float)}
  (hfits : ∀ values ∈ vectors, Parameters.Fits j₀.snapshot.instructions values)

/-- After the messages that have come, the next one of a job is its request if there are none, and new
parameters otherwise. -/
theorem next_of_prefix {ms : List Message} (h : ms ++ [m] <+: j₀.script vectors) :
    (ms = [] ∧ m = .run j₀.request) ∨
      ∃ m' values, ms.getLast? = some m' ∧ values ∈ vectors ∧ m = j₀.updateOf values := by
  cases ms with
  | nil =>
    obtain ⟨rfl, -⟩ := List.cons_prefix_cons.1 h
    exact .inl ⟨rfl, rfl⟩
  | cons first rest =>
    obtain ⟨-, hrest⟩ := List.cons_prefix_cons.1 h
    obtain ⟨values, hvalues, rfl⟩ :=
      List.mem_map.1 (hrest.subset (List.mem_append_right _ List.mem_cons_self))
    exact .inr ⟨_, values, List.getLast?_eq_some_getLast (List.cons_ne_nil first rest), hvalues, rfl⟩

include hfits in
theorem admitted?_of_prefix {ms : List Message} (h : ms ++ [m] <+: j₀.script vectors)
    (hlast : ∀ m', ms.getLast? = some m' → c.last.find? unit = some (j₀.asOf m').request) :
    c.admitted? unit m = some (j₀.asOf m).request := by
  obtain ⟨rfl, rfl⟩ | ⟨m', values, hm', hvalues, rfl⟩ := next_of_prefix h
  · rfl
  · have hmem : m' ∈ ms ++ [j₀.updateOf values] :=
      List.mem_append_left _ (List.mem_of_getLast? hm')
    exact admitted?_updateOf (asks_of_mem_script hfits (h.subset hmem)) (hlast m' hm')
      (hfits values hvalues)

include hfits in
/-- As long as nobody else sends to it, a unit has what the last message asks for. -/
theorem find?_last_after {es : List Event} (h : arrivedAt unit es <+: j₀.script vectors)
    (hm : (arrivedAt unit es).getLast? = some m) :
    (c.after es).last.find? unit = some (j₀.asOf m).request := by
  induction es using List.reverseRecOn generalizing m with
  | nil => cases hm
  | append_singleton es e ih =>
    rw [arrivedAt_concat] at h hm
    rw [Cluster.after_append, Cluster.after_cons, Cluster.after_nil, Cluster.last_next]
    have hbefore := (List.prefix_append ..).trans h
    cases hat : e.at? unit with
    | none =>
      rw [hat, Option.toList_none, List.append_nil] at hm
      exact ih hbefore hm
    | some m' =>
      rw [hat, Option.toList_some] at h hm
      obtain rfl := Option.some.inj (List.getLast?_concat.symm.trans hm)
      rw [Option.bind_some, admitted?_of_prefix hfits h fun _ => ih hbefore, Option.some_or]

include hfits in
/-- Whatever of a job comes to a unit where nobody else sends to, the unit runs what it asks for. -/
theorem admitted?_after {es later : List Event}
    (h : arrivedAt unit (es ++ .arrive unit m :: later) <+: j₀.script vectors) :
    (c.after es).admitted? unit m = some (j₀.asOf m).request := by
  rw [Cluster.arrivedAt_arrive] at h
  have hnext : arrivedAt unit es ++ [m] <+: j₀.script vectors :=
    ((List.prefix_append_right_inj _).2 (List.prefix_append [m] _)).trans h
  exact admitted?_of_prefix hfits hnext fun _ =>
    find?_last_after hfits ((List.prefix_append ..).trans hnext)

end script

/-! ### Runs of one request -/

/-- Whatever happens in a cluster, what relays with nobody is answered what its run alone gives. -/
theorem answered_of_alone {maxQubits parkTimeout : Nat} {seed : UInt64} {before later : List Event}
    (hes : (fresh maxQubits parkTimeout seed).Admits (before ++ .arrive unit m :: later))
    (hadmitted : ((fresh maxQubits parkTimeout seed).after before).admitted? unit m = some j.request)
    (halone : j.request.Alone) :
    j.Answered ((fresh maxQubits parkTimeout seed).after (before ++ .arrive unit m :: later))
      ((fresh maxQubits parkTimeout seed).after before).nextTicket :=
  answered_of_carried (Cluster.carried_of_alone hes rfl hadmitted halone)

/-- Whichever cluster a job's request comes to, it is answered what its run alone gives. -/
def RunsAlone (j : Job) : Prop :=
  ∀ maxQubits parkTimeout seed before unit later,
    (fresh maxQubits parkTimeout seed).Admits (before ++ .arrive unit (.run j.request) :: later) →
      j.Answered
        ((fresh maxQubits parkTimeout seed).after (before ++ .arrive unit (.run j.request) :: later))
        ((fresh maxQubits parkTimeout seed).after before).nextTicket

theorem runsAlone_of_alone (h : j.request.Alone) : j.RunsAlone :=
  fun _ _ _ _ _ _ hes => answered_of_alone hes rfl h

theorem lone_eq {f : Job} (hsnapshot : f.snapshot = j.snapshot)
    (hendpoint : f.endpoint = j.endpoint) (hconfig : f.config = j.config)
    (maxQubits : Nat) (seed : UInt64) : f.lone maxQubits seed = j.lone maxQubits seed := by
  have hrequest : [f.request] = [j.request].map (RunRequest.runAs f.execType) := by
    unfold request
    rw [hsnapshot, hconfig]
    rfl
  unfold lone read deliver
  rw [hrequest, Engine.outcomeOf_runAs, hsnapshot, hendpoint, hconfig]

/-! ### All that a unit makes of a job -/

variable {ω : Type}

theorem Stands.arrived {w : Session (Recorded ω)} (h : Stands j₀ j w.network.record)
    {ms : List Message} (hms : ms <+: w.network.sent.map (·.2)) :
    ∃ vectors : List (List Float),
      (∀ values ∈ vectors, Parameters.Fits j₀.snapshot.instructions values) ∧
        ms <+: j₀.script vectors := by
  obtain hnone | ⟨vectors, hfits, hsent⟩ := h.messages
  · rw [hnone] at hms
    exact ⟨[], fun _ hv => absurd hv List.not_mem_nil, List.prefix_nil.1 hms ▸ List.nil_prefix⟩
  · rw [hsent, List.map_map] at hms
    exact ⟨vectors, hfits, by simpa using hms⟩

variable [Network ω]

/-- A job whose messages have been the only ones at a unit since some point, and that unit. -/
structure Follows (j₀ j : Job) (w : Session (Recorded ω)) (c₀ : Cluster) (unit : String)
    (before since : List Event) : Prop where
  /-- What the unit has is the request for what the last message to come asks for. -/
  stored : ∀ m, (arrivedAt unit since).getLast? = some m →
    (c₀.after (before ++ since)).last.find? unit =
      some (.ofSnapshot (j₀.asked m) j₀.config j₀.execType)
  /-- Once all messages have come, it is the request for the circuit that the job has. -/
  current : w.network.sent ≠ [] → arrivedAt unit since = w.network.sent.map (·.2) →
    (c₀.after (before ++ since)).last.find? unit = some (.ofSnapshot j.snapshot j.config j.execType)
  /-- What new parameters ask for is the circuit, as any message before asked for it, with these
  parameters. -/
  replaced : ∀ m ∈ arrivedAt unit since, ∀ values, j₀.updateOf values ∈ arrivedAt unit since →
    (j₀.asked m).withParameters values = .ok (j₀.asked (j₀.updateOf values))
  /-- What relays with nobody is answered what a run of the request alone gives. -/
  answered : j₀.snapshot.hasRelay = false →
    ∀ earlier m later, since = earlier ++ .arrive unit m :: later →
      (j₀.asOf m).Answered (c₀.after (before ++ since)) (c₀.after (before ++ earlier)).nextTicket
  /-- What the job hands out is what it makes of the answer to its last message. -/
  handed : ∀ p m ticket r, w.network.record =
      p ++ [.sent j₀.endpoint.socket m ticket, .received ticket (.answer r.toJson)] →
    (j.result w).1.map (Option.map RunResult.untimed) = ((j₀.asOf m).read r).map some
  /-- A job can be made anew from what a message asks for. It gets what the message gets. -/
  renewed : j₀.snapshot.hasRelay = false → ∀ m ∈ arrivedAt unit since, ∀ id execType,
    ∃ f, ofExecType id j₀.endpoint (j₀.asked m) j₀.config execType = .ok f ∧ f.RunsAlone ∧
      ∀ maxQubits seed, f.lone maxQubits seed = (j₀.asOf m).lone maxQubits seed

theorem Stands.handed {w : Session (Recorded ω)} (h : Stands j₀ j w.network.record)
    {p : List Passage} {ticket : Nat} {r : Response} (hp : w.network.record =
      p ++ [.sent j₀.endpoint.socket m ticket, .received ticket (.answer r.toJson)]) :
    (j.result w).1.map (Option.map RunResult.untimed) = ((j₀.asOf m).read r).map some := by
  have hends : Ends j₀ w.network.record m ((j₀.asOf m).deliver (.answer r.toJson)) :=
    ⟨p, ticket, _, hp, rfl⟩
  obtain ⟨hidle, hkept⟩ := h.of_ends hends
  rw [result_eq_of_idle hidle, hkept, read]
  cases (j₀.asOf m).deliver (.answer r.toJson) with
  | ok result => rfl
  | error e => rfl

/-- Every update does what the request with these parameters would do, or nothing. So a unit that only
a job sends to has what the job has, and gives it what a job made anew would get. -/
theorem unit_follows {maxQubits parkTimeout : Nat} {seed : UInt64} {es : List Event}
    (hes : (fresh maxQubits parkTimeout seed).Admits es) :
    (∀ unit u, ((fresh maxQubits parkTimeout seed).after es).Updates unit u) ∧
    ∀ {id : String} {endpoint : Endpoint} {s : Snapshot} {config : RunConfig} {execType : ExecType}
      {j₀ : Job}, ofExecType id endpoint s config execType = .ok j₀ →
    ∀ {w : Session (Recorded ω)}, w.network.record = [] → ∀ steps unit before since,
      es = before ++ since →
      arrivedAt unit since <+: (j₀.converse w steps).2.network.sent.map (·.2) →
        Follows j₀ (j₀.converse w steps).1 (j₀.converse w steps).2 (fresh maxQubits parkTimeout seed)
          unit before since := by
  refine ⟨Cluster.updates (Cluster.sound_after hes), ?_⟩
  intro id endpoint s config execType j₀ hmade w hrecord steps unit before since hsplit harrived
  have hstands : Stands j₀ (j₀.converse w steps).1 (j₀.converse w steps).2.network.record :=
    Stands.converse (hrecord ▸ .fresh) (new_of_ofExecType hmade) steps
  generalize j₀.converse w steps = now at hstands harrived ⊢
  obtain ⟨j, w⟩ := now
  dsimp only at hstands harrived ⊢
  obtain ⟨vectors, hfits, hscript⟩ := hstands.arrived harrived
  have hasks : ∀ m ∈ arrivedAt unit since, Asks j₀ m := fun m hm =>
    asks_of_mem_script hfits (hscript.subset hm)
  have hstored {m : Message} (hm : (arrivedAt unit since).getLast? = some m) :
      ((fresh maxQubits parkTimeout seed).after (before ++ since)).last.find? unit =
        some (j₀.asOf m).request := by
    rw [Cluster.after_append]
    exact find?_last_after hfits hscript hm
  subst hsplit
  exact {
    stored := fun m hm => hstored hm
    current := fun hsent hall => by
      obtain ⟨-, hp⟩ | ⟨rounds, m, _, _, _, -, rfl, -, -, hmessages⟩ := hstands.last
      · exact absurd (by rw [Recorded.sent, hp]; rfl) hsent
      · exact hstored (by rw [hall, Recorded.sent, hmessages]; simp)
    replaced := fun m hm values hvalues =>
      (hasks m hm).withParameters_eq_ok.2 ⟨(hasks _ hvalues).fits, rfl⟩
    answered := fun hrelay earlier m later hsince => by
      subst hsince
      have hm : m ∈ arrivedAt unit (earlier ++ .arrive unit m :: later) := by
        rw [Cluster.arrivedAt_arrive]
        exact List.mem_append_right _ List.mem_cons_self
      rw [← List.append_assoc] at hes ⊢
      refine answered_of_alone hes ?_ (alone_asked hmade (hasks m hm) hrelay)
      rw [Cluster.after_append]
      exact admitted?_after hfits hscript
    handed := fun p m ticket r hp => hstands.handed hp
    renewed := fun hrelay m hm id execType => by
      have hf := ofExecType_asked hmade (hasks m hm) id execType
      have halone := alone_asked hmade (hasks m hm) hrelay
      exact ⟨_, hf, runsAlone_of_alone ⟨halone.relay, halone.peers⟩, lone_eq rfl rfl rfl⟩ }

/-! ### A job on its unit -/

/-- The messages of a job that turns its qubit by another angle after the first run come to its unit. -/
def dialed : List Event :=
  [.arrive "unit" (.run dial.request), .finish 0 0.25, .arrive "unit" (.update ⟨"dial", [0.25]⟩)]

/-- The unit has the circuit with the new angle, as the job has it; it would run it for a third angle as
it would for the request; and it has answered both messages what a job made anew gets. -/
theorem dial_follows :
    let c := (fresh 1 30 0).after dialed
    let w : Session (Recorded Ended) :=
      { network := ⟨{ deliveries := [allZero 3, allZero 5] }, []⟩ }
    let now := dial.converse w [.call .submit, .call .result, .call (.upgrade [0.25]), .call .result]
    let turned := dial.asOf (.update ⟨"dial", [0.25]⟩)
    (fresh 1 30 0).Admits dialed ∧
    ofExecType "#0" dial.endpoint dial.snapshot {} .offloading = .ok dial ∧
    arrivedAt "unit" dialed = now.2.network.sent.map (·.2) ∧
    Follows dial now.1 now.2 (fresh 1 30 0) "unit" [] dialed ∧
    c.last.find? "unit" = some now.1.request ∧ now.1.snapshot.parameters = [0.25] ∧
    c.receive "unit" (.update ⟨"dial", [0.75]⟩) =
      c.receive "unit" (.run (turned.request.rebind [0.75])) ∧
    dial.Answered c 0 ∧ turned.Answered c 1 := by
  have hadmits : (fresh 1 30 0).Admits dialed :=
    ⟨trivial, Nat.one_pos, trivial, trivial⟩
  have hmade : ofExecType "#0" dial.endpoint dial.snapshot {} .offloading = .ok dial := rfl
  obtain ⟨hupdates, hfollows⟩ := unit_follows (ω := Ended) hadmits
  have h := hfollows hmade (w := { network := ⟨{ deliveries := [allZero 3, allZero 5] }, []⟩ }) rfl
    [.call .submit, .call .result, .call (.upgrade [0.25]), .call .result] "unit" [] dialed rfl
    List.prefix_rfl
  have hlast := h.current (List.cons_ne_nil _ _) rfl
  have hloaded : ((fresh 1 30 0).after dialed).Loaded "unit" ⟨"dial", [0.75]⟩
      (dial.asOf (.update ⟨"dial", [0.25]⟩)).request :=
    ⟨h.stored _ rfl, rfl, by decide, List.forall_mem_singleton.2 (by decide)⟩
  have htaken := ((hupdates "unit" ⟨"dial", [0.75]⟩).taken _ hloaded).1
  have hfirst := h.answered rfl [] _ _ rfl
  have hsecond := h.answered rfl [.arrive "unit" (.run dial.request), .finish 0 0.25] _ [] rfl
  have hticket : ((fresh 1 30 0).after
      [.arrive "unit" (.run dial.request), .finish 0 0.25]).nextTicket = 1 :=
    (Cluster.nextTicket_complete ((fresh 1 30 0).receive "unit" (.run dial.request)).2 0 0.25).trans rfl
  rw [List.nil_append, List.nil_append, hticket] at hsecond
  exact ⟨hadmits, hmade, rfl, h, hlast, rfl, htaken, hfirst, hsecond⟩

end Job

end QuantumRelay
