import QuantumRelay.Proofs.Job.Conversation

/-!
# What a job keeps to

`Orderly` lists what a job promises at every point of its conversation: what it has sent and when, what
its counters and flags say, whose answer a result is, that results stay, and that a failure ends the
conversation. All of it follows from where the conversation stands (`converse_orderly`), so it holds over
every network and for every sequence of calls.
-/

namespace QuantumRelay.Job

variable {ω : Type} {j₀ j : Job} {p : List Passage}

/-! ### What is handed out -/

/-- What has passed ends with the answer to a message, and the job makes an outcome of it. -/
def Ends (j₀ : Job) (p : List Passage) (m : Message) (outcome : Except JobError RunResult) : Prop :=
  ∃ before ticket delivery, p = before ++
      [.sent j₀.endpoint.socket m ticket, .received ticket delivery] ∧
    (j₀.asOf m).deliver delivery = outcome

theorem ends_passages (j₀ : Job) (rounds : List Round) (r : Round) :
    Ends j₀ (j₀.passages (rounds ++ [r])) r.message (r.outcome j₀) :=
  ⟨j₀.passages rounds, r.ticket, r.delivery,
    by rw [passages_append, passages_singleton]; rfl, rfl⟩

theorem Ends.of_suffix {m : Message} {outcome : Except JobError RunResult} (h : Ends j₀ p m outcome)
    (before : List Passage) : Ends j₀ (before ++ p) m outcome := by
  obtain ⟨earlier, ticket, delivery, rfl, hread⟩ := h
  exact ⟨before ++ earlier, ticket, delivery, (List.append_assoc ..).symm, hread⟩

theorem result_before {rounds : List Round}
    (hread : ∀ r ∈ rounds, ∃ result, r.outcome j₀ = .ok result) {first : Passage}
    {rest before after : List Passage} (hrest : ∀ x ∈ rest, x.sent? = none) {socket : Nat} {m : Message}
    {ticket : Nat}
    (hp : j₀.passages rounds ++ first :: rest = before ++ .sent socket m ticket :: after) :
    before = [] ∨ ∃ m' result, Ends j₀ before m' (.ok result) := by
  induction rounds generalizing before with
  | nil =>
    cases before with
    | nil => exact .inl rfl
    | cons x before =>
      obtain ⟨-, hp⟩ := List.cons.inj hp
      have hnone := hrest (.sent socket m ticket) (hp ▸ List.mem_append_right _ List.mem_cons_self)
      cases hnone
  | cons r rounds ih =>
    obtain ⟨⟨result, hresult⟩, hread⟩ := List.forall_mem_cons.1 hread
    have hcons : j₀.passages (r :: rounds) = .sent j₀.endpoint.socket r.message r.ticket ::
        .received r.ticket r.delivery :: j₀.passages rounds := rfl
    rw [hcons, List.cons_append, List.cons_append] at hp
    cases before with
    | nil => exact .inl rfl
    | cons x before =>
      rw [List.cons_append, List.cons.injEq] at hp
      obtain ⟨rfl, hp⟩ := hp
      cases before with
      | nil =>
        rw [List.nil_append, List.cons.injEq] at hp
        cases hp.1
      | cons y before =>
        rw [List.cons_append, List.cons.injEq] at hp
        obtain ⟨rfl, hp⟩ := hp
        right
        rcases ih hread hp with rfl | ⟨m', result', hends⟩
        · exact ⟨r.message, result, [], r.ticket, r.delivery, rfl, hresult⟩
        · exact ⟨m', result', hends.of_suffix (r.passages j₀.endpoint.socket)⟩

theorem Stands.kept (h : Stands j₀ j p) (hnew : New j₀) (hidle : j.isInFlight = false) :
    (p = [] ∧ j.kept = .ok none) ∨
      ∃ m outcome, Asks j₀ m ∧ Ends j₀ p m outcome ∧ j.kept = outcome.map some := by
  cases h with
  | fresh =>
    refine .inl ⟨rfl, ?_⟩
    unfold Job.kept
    rw [hnew.stage]
  | waiting => cases hidle
  | @answered rounds r submittedAt hcourse =>
    exact .inr ⟨r.message, r.outcome j₀, hcourse.asks, ends_passages j₀ rounds r,
      (kept_of_stageOf rfl).2⟩

theorem Stands.of_ends (h : Stands j₀ j p) {m : Message} {outcome : Except JobError RunResult}
    (hends : Ends j₀ p m outcome) : j.isInFlight = false ∧ j.kept = outcome.map some := by
  obtain ⟨before, ticket, delivery, hp, hread⟩ := hends
  cases h with
  | fresh => simp at hp
  | waiting =>
    have hlast := congrArg List.getLast? hp
    simp at hlast
  | @answered rounds r submittedAt =>
    rw [passages_append, passages_singleton] at hp
    have hround := List.append_inj_right' hp rfl
    unfold Round.passages at hround
    simp only [List.cons.injEq, Passage.sent.injEq, Passage.received.injEq] at hround
    obtain ⟨⟨-, rfl, -⟩, ⟨-, rfl⟩, -⟩ := hround
    rw [← hread]
    exact kept_of_stageOf rfl

theorem parameters_of_parse {raw : Json} {s : Snapshot} {endpoint : String} {r : RunResult}
    (h : RunResult.parse raw s endpoint = .ok r) : r.parameters = s.parameters := by
  unfold RunResult.parse at h
  split at h
  · cases h
  · cases h
  · cases h
  · cases h
  · obtain ⟨counts, -, rfl⟩ := map_eq_ok.1 h
    rfl

theorem logged_eq_ok {r r' : RunResult} (h : r.logged = .ok r') : r = r' := by
  unfold RunResult.logged at h
  split at h
  · cases h
  · exact Except.ok.inj h

theorem deliver_eq_ok {delivery : Delivery} {r : RunResult} (h : j.deliver delivery = .ok r) :
    ∃ raw, delivery = .answer raw ∧ RunResult.parse raw j.snapshot j.endpoint.id = .ok r := by
  cases delivery with
  | answer raw =>
    obtain ⟨r', hparse, hlogged⟩ := bind_eq_ok.1 h
    exact ⟨raw, rfl, logged_eq_ok hlogged ▸ hparse⟩
  | broken endpoint reason => cases h
  | died reason => cases h

namespace Stands

variable {w : Session (Recorded ω)}

theorem messages (h : Stands j₀ j w.network.record) :
    w.network.sent = [] ∨ ∃ vectors : List (List Float),
      (∀ values ∈ vectors, Parameters.Fits j₀.snapshot.instructions values) ∧
        w.network.sent = (j₀.script vectors).map (j₀.endpoint.socket, ·) := by
  obtain ⟨-, hp⟩ | ⟨rounds, m, _, _, _, hcourse, -, -, -, hsent⟩ := h.last
  · exact .inl (by rw [Recorded.sent, hp]; rfl)
  · obtain ⟨vectors, hfits, hvectors⟩ := hcourse.messages
    exact .inr ⟨vectors, hfits, hvectors ▸ hsent⟩

theorem result_before {before after : List Passage} {socket : Nat} {m : Message} {ticket : Nat}
    (h : Stands j₀ j (before ++ .sent socket m ticket :: after)) :
    before = [] ∨ ∃ m' result, Ends j₀ before m' (.ok result) := by
  generalize hp : before ++ .sent socket m ticket :: after = p at h
  cases h with
  | fresh => simp at hp
  | waiting hcourse =>
    have hrest : ∀ x ∈ ([] : List Passage), x.sent? = none := fun _ hx => absurd hx List.not_mem_nil
    exact Job.result_before hcourse.read hrest hp.symm
  | @answered rounds r _ hcourse =>
    rw [passages_append, passages_singleton] at hp
    have hrest : ∀ x ∈ [Passage.received r.ticket r.delivery], x.sent? = none :=
      List.forall_mem_singleton.2 rfl
    exact Job.result_before hcourse.read hrest hp.symm

theorem configured (h : Stands j₀ j w.network.record) (hnew : New j₀) :
    j.isConfigured = true ↔ w.network.sent = [] := by
  obtain ⟨rfl, hp⟩ | ⟨rounds, m, _, _, _, -, rfl, hstage, -, hsent⟩ := h.last
  · exact iff_of_true hnew.isConfigured (by rw [Recorded.sent, hp]; rfl)
  · rw [Recorded.sent, hsent, isConfigured_of_ne hstage]
    simp

theorem isInFlight_iff : j.isInFlight = true ↔ ∃ ticket, j.stage = .submitted ticket := by
  unfold isInFlight
  split
  · next ticket hstage => simp [hstage]
  · next hstage => simpa using hstage

theorem counted (h : Stands j₀ j w.network.record) (hnew : New j₀)
    (hlen : w.network.sent.length < UInt32.size) :
    j.submissions.toNat = w.network.sent.length ∧
      (j.isConfigured = true ↔ j.submissions = 0) ∧
      (j.stale = true ↔ j.isInFlight = true ∧ 2 ≤ j.submissions) := by
  rw [h.configured hnew]
  obtain ⟨rfl, hp⟩ | ⟨rounds, m, stage, stale, submittedAt, -, rfl, hstage, hstale, hsent⟩ := h.last
  · have hnone : w.network.sent = [] := by rw [Recorded.sent, hp]; rfl
    rw [hnone, hnew.submissions, hnew.stale, isInFlight_iff, hnew.stage]
    simp
  · have hcount : w.network.sent.length = rounds.length + 1 := by
      rw [Recorded.sent, hsent]
      simp
    have hsubmissions : (j₀.reached rounds m stage stale submittedAt).submissions.toNat =
        rounds.length + 1 := UInt32.toNat_ofNat_of_lt' (hcount ▸ hlen)
    refine ⟨hsubmissions.trans hcount.symm, ?_, ?_⟩
    · rw [← List.length_eq_zero_iff, hcount, ← UInt32.toNat_inj, hsubmissions]
      rfl
    · rw [isInFlight_iff, UInt32.le_iff_toNat_le, hsubmissions]
      refine hstale.trans (and_congr_right fun _ => ?_)
      rw [← List.length_pos_iff]
      exact Nat.succ_le_succ_iff.symm

theorem snapshot (h : Stands j₀ j w.network.record) :
    match w.network.sent.getLast? with
    | none => j.snapshot = j₀.snapshot
    | some (_, m) => j.snapshot = j₀.asked m ∧ j.snapshot.parameters = m.vector := by
  obtain ⟨rfl, hp⟩ | ⟨rounds, m, _, _, _, hcourse, rfl, -, -, hsent⟩ := h.last
  · have hnone : w.network.sent = [] := by rw [Recorded.sent, hp]; rfl
    rw [hnone]
    rfl
  · have hlast : w.network.sent.getLast? = some (j₀.endpoint.socket, m) := by
      rw [Recorded.sent, hsent]
      simp
    rw [hlast]
    exact ⟨rfl, hcourse.asks.parameters_eq⟩

end Stands

/-! ### Promises -/

variable [Network ω]

/-- What a job made as `j₀` keeps to, wherever its conversation has got. -/
structure Orderly (j₀ j : Job) (w : Session (Recorded ω)) : Prop where
  /-- The request is sent first, and after it new parameters that fit, all to the endpoint of the
  job. -/
  messages : w.network.sent = [] ∨ ∃ vectors : List (List Float),
    (∀ values ∈ vectors, Parameters.Fits j₀.snapshot.instructions values) ∧
      w.network.sent = (.run j₀.request :: vectors.map j₀.updateOf).map (j₀.endpoint.socket, ·)
  /-- Every message after the first is sent right after the one before gave a result. -/
  result_before : ∀ before socket m ticket after,
    w.network.record = before ++ .sent socket m ticket :: after →
      before = [] ∨ ∃ m' result, Ends j₀ before m' (.ok result)
  configured : j.isConfigured = true ↔ w.network.sent = []
  /-- The counter counts the messages, as long as it does not overflow, and the flags agree with it. -/
  counted : w.network.sent.length < UInt32.size →
    j.submissions.toNat = w.network.sent.length ∧
      (j.isConfigured = true ↔ j.submissions = 0) ∧
      (j.stale = true ↔ j.isInFlight = true ∧ 2 ≤ j.submissions)
  /-- The circuit is as it was made, or as the last message asks for it. -/
  snapshot : match w.network.sent.getLast? with
    | none => j.snapshot = j₀.snapshot
    | some (_, m) => j.snapshot = j₀.asked m ∧ j.snapshot.parameters = m.vector
  /-- Waiting sends nothing. It gives what the job makes of the answer to the last message: the result
  read from it with the parameters of that message, or a failure. -/
  result_sent : (j.result w).2.2.network.sent = w.network.sent
  result : match (j.result w).1 with
    | .ok none => w.network.sent = []
    | .ok (some r) => ∃ before m ticket raw, (j.result w).2.2.network.record = before ++
          [.sent j₀.endpoint.socket m ticket, .received ticket (.answer raw)] ∧
        RunResult.parse raw (j₀.asked m) j₀.endpoint.id = .ok r ∧ r.parameters = m.vector
    | .error e => ∃ m, Ends j₀ (j.result w).2.2.network.record m (.error e)
  /-- Gathering hands out the same results. -/
  gatherOne : (j.gatherOne w).2 = (j.result w).2 ∧
    ∀ r, (j.gatherOne w).1 = .ok r ↔ (j.result w).1 = .ok (some r)
  /-- Until something is sent, the result that has been waited for stays and is not waited for again. -/
  result_stays : ∀ more : List (Step ω),
    ((j.result w).2.1.converse (j.result w).2.2 more).2.network.sent = w.network.sent →
      (((j.result w).2.1.converse (j.result w).2.2 more).1.result
        ((j.result w).2.1.converse (j.result w).2.2 more).2).1 = (j.result w).1 ∧
      (((j.result w).2.1.converse (j.result w).2.2 more).1.result
        ((j.result w).2.1.converse (j.result w).2.2 more).2).2.2.network.record =
          (j.result w).2.2.network.record
  /-- After a failure nothing is sent, and every result is that failure. -/
  failure_stays : ∀ m e, Ends j₀ w.network.record m (.error e) → ∀ more : List (Step ω),
    (j.converse w more).2.network.sent = w.network.sent ∧
      ((j.converse w more).1.result (j.converse w more).2).1 = .error e

theorem result_eq_of_idle (h : j.isInFlight = false) (w : Session ω) :
    j.result w = (j.kept, j, w) := by
  unfold Job.result
  rw [settle_of_not_isInFlight h]

theorem Stands.result {w : Session (Recorded ω)} (h : Stands j₀ j w.network.record) (hnew : New j₀) :
    match (j.result w).1 with
    | .ok none => w.network.sent = []
    | .ok (some r) => ∃ before m ticket raw, (j.result w).2.2.network.record = before ++
          [.sent j₀.endpoint.socket m ticket, .received ticket (.answer raw)] ∧
        RunResult.parse raw (j₀.asked m) j₀.endpoint.id = .ok r ∧ r.parameters = m.vector
    | .error e => ∃ m, Ends j₀ (j.result w).2.2.network.record m (.error e) := by
  have hsettled := h.settle hnew rfl
  have hresult : j.result w = ((j.settle w).1.kept, j.settle w) := rfl
  rw [hresult]
  obtain ⟨hp, hkept⟩ | ⟨m, outcome, hasks, hends, hkept⟩ :=
    hsettled.kept hnew (settle_rest j w).2.2
  · rw [hkept]
    show w.network.sent = []
    rw [← sent_settle j w, Recorded.sent, hp]
    rfl
  · rw [hkept]
    cases outcome with
    | error e => exact ⟨m, hends⟩
    | ok r =>
      obtain ⟨before, ticket, delivery, hp, hread⟩ := hends
      obtain ⟨raw, rfl, hparse⟩ := deliver_eq_ok hread
      refine ⟨before, m, ticket, raw, hp, hparse, ?_⟩
      exact (parameters_of_parse hparse).trans hasks.parameters_eq

theorem result_stays (j : Job) (w : Session (Recorded ω)) (more : List (Step ω))
    (hmore : ((j.settle w).1.converse (j.settle w).2 more).2.network.sent = w.network.sent) :
    (((j.settle w).1.converse (j.settle w).2 more).1.result
        ((j.settle w).1.converse (j.settle w).2 more).2).1 = (j.settle w).1.kept ∧
      (((j.settle w).1.converse (j.settle w).2 more).1.result
        ((j.settle w).1.converse (j.settle w).2 more).2).2.2.network.record =
          (j.settle w).2.network.record := by
  have hidle := (settle_rest j w).2.2
  obtain ⟨hjob, hrecord⟩ | ⟨-, hlt⟩ := converse_of_idle hidle (j.settle w).2 more
  · rw [hjob, result_eq_of_idle hidle]
    exact ⟨rfl, hrecord⟩
  · rw [hmore, sent_settle] at hlt
    exact absurd hlt (Nat.lt_irrefl _)

theorem failure_stays {w : Session (Recorded ω)} (h : Stands j₀ j w.network.record) {m : Message}
    {e : JobError} (hends : Ends j₀ w.network.record m (.error e)) (more : List (Step ω)) :
    (j.converse w more).2.network.sent = w.network.sent ∧
      ((j.converse w more).1.result (j.converse w more).2).1 = .error e := by
  obtain ⟨hidle, hkept⟩ := h.of_ends hends
  obtain ⟨hjob, hrecord⟩ | ⟨⟨kept, hok⟩, -⟩ := converse_of_idle hidle w more
  · rw [hjob, result_eq_of_idle hidle]
    exact ⟨Recorded.sent_of_record hrecord, hkept⟩
  · rw [hkept] at hok
    cases hok

/-- Whatever is called on a job that was just made, over whatever network and with whatever happening
in between: the job keeps to all of it. -/
theorem converse_orderly {id : String} {endpoint : Endpoint} {s : Snapshot} {config : RunConfig}
    {execType : ExecType} (hmade : ofExecType id endpoint s config execType = .ok j₀)
    {w : Session (Recorded ω)} (hrecord : w.network.record = []) (steps : List (Step ω)) :
    Orderly j₀ (j₀.converse w steps).1 (j₀.converse w steps).2 := by
  have hnew := new_of_ofExecType hmade
  have hstands : Stands j₀ (j₀.converse w steps).1 (j₀.converse w steps).2.network.record :=
    Stands.converse (hrecord ▸ .fresh) hnew steps
  generalize j₀.converse w steps = now at hstands ⊢
  obtain ⟨j, w⟩ := now
  exact {
    messages := hstands.messages
    result_before := fun before socket m ticket after hp =>
      Stands.result_before (hp ▸ hstands)
    configured := hstands.configured hnew
    counted := hstands.counted hnew
    snapshot := hstands.snapshot
    result_sent := sent_settle j w
    result := hstands.result hnew
    gatherOne := by
      rw [gatherOne_eq]
      refine ⟨rfl, fun r => ?_⟩
      dsimp only
      split
      · next r' hr => simp [hr]
      · next hr => simp [hr]
      · next e hr => simp [hr]
    result_stays := result_stays j w
    failure_stays := fun m e hends more => failure_stays hstands hends more }

/-! ### A conversation -/

/-- A network whose exchanges are over: what each of them came to, ticket by ticket. -/
structure Ended where
  deliveries : List Delivery
  sent : Nat := 0

instance : Network Ended where
  send n _ _ := (n.sent, { n with sent := n.sent + 1 })
  receive n ticket := (n.deliveries[ticket]?.getD (.died "never started"), n)

/-- The answer of a run of one qubit that was measured `zeros` times as zero. -/
def allZero (zeros : UInt64) : Delivery :=
  .answer (Response.ofCounts (.ofList [("0x0", zeros)]) 0.5).toJson

/-- A job that measures one qubit. -/
def probe : Job where
  id := "#0"
  endpoint := { id := "unit", address := "", backend := .statevector "unit" 1, socket := 0 }
  snapshot :=
    { id := "probe"
      instructions := [{ name := "measure", qubits := [0], clbits := [0] }]
      numQubits := 1, numClbits := 1
      quantumRegisters := [⟨"q", [0]⟩], classicalRegisters := [⟨"c", [0]⟩]
      isParametric := false, isDistributed := false }
  config := {}
  execType := .offloading

/-- A job that turns one qubit by an angle and measures it. -/
def dial : Job :=
  { probe with
    snapshot :=
      { probe.snapshot with
        id := "dial"
        instructions := { name := "rx", qubits := [0], params := [0.5] } :: probe.snapshot.instructions
        isParametric := true } }

/-- A circuit is run, and run again with two other angles. The task of the last exchange dies, and the job
says so however often it is asked. -/
theorem dial_orderly :
    ofExecType "#0" dial.endpoint dial.snapshot {} .offloading = .ok dial ∧
    let w : Session (Recorded Ended) :=
      { network := ⟨{ deliveries := [allZero 3, allZero 5, .died "cancelled"] }, []⟩ }
    w.network.record = [] ∧
    let steps : List (Step Ended) :=
      [.call .submit, .call .result, .call (.upgrade [0.25]), .call .submit, .call (.upgrade [0.75])]
    let now := dial.converse w steps
    Orderly dial now.1 now.2 ∧
    now.2.network.sent = [(0, .run dial.request), (0, .update ⟨"dial", [0.25]⟩),
      (0, .update ⟨"dial", [0.75]⟩)] ∧
    now.1.stale = true ∧
    (now.1.result now.2).1 = .error (.transport "unit" "request task ended: cancelled") := by
  have hmade : ofExecType "#0" dial.endpoint dial.snapshot {} .offloading = .ok dial := rfl
  exact ⟨hmade, rfl, converse_orderly hmade rfl _, rfl, rfl, rfl⟩

end QuantumRelay.Job
