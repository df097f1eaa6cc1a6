import QuantumRelay.Job.Basic
import QuantumRelay.Proofs.Exchange.Record
import QuantumRelay.Proofs.Fallible

/-!
# What one call does to a job

A job can be made if its snapshot describes a circuit and its settings and backend agree with it
(`ofExecType_eq_ok`). Submitting it and replacing its parameters send at most one message, and only in
an open session; waiting for a result sends none (`submit_of_isOpen`, `upgrade_cases`,
`settle_of_submitted`).
-/

namespace QuantumRelay.Job

variable {ω : Type} {j : Job}

def request (j : Job) : RunRequest := .ofSnapshot j.snapshot j.config j.execType

theorem ofExecType_eq_ok {id : String} {endpoint : Endpoint} {s : Snapshot} {config : RunConfig}
    {execType : ExecType} : ofExecType id endpoint s config execType = .ok j ↔
      ∃ snapshot, s.normalized = .ok snapshot ∧ config.fault? = none ∧
        endpoint.backend.fault? snapshot = none ∧
        j = { id, endpoint, snapshot, config, execType } := by
  unfold ofExecType
  split
  · next hs => simp [hs]
  · next snapshot hs =>
    split
    · next hconfig => simp [hconfig]
    · next hconfig =>
      split
      · next hbackend => simp [hs, hconfig, hbackend]
      · next hbackend => simp [hs, hconfig, hbackend, eq_comm]

/-- A job to which nothing has happened. -/
structure New (j : Job) : Prop where
  stage : j.stage = .configured
  stale : j.stale = false
  submissions : j.submissions = 0

theorem new_of_ofExecType {id : String} {endpoint : Endpoint} {s : Snapshot} {config : RunConfig}
    {execType : ExecType} (h : ofExecType id endpoint s config execType = .ok j) : New j := by
  obtain ⟨snapshot, -, -, -, rfl⟩ := ofExecType_eq_ok.1 h
  exact ⟨rfl, rfl, rfl⟩

theorem New.isConfigured (h : New j) : j.isConfigured = true := by
  unfold Job.isConfigured
  rw [h.stage]

variable [Network ω] {w : Session ω}

/-! ### Submitting -/

theorem submit_again (h : j.isConfigured = false) (w : Session ω) :
    j.submit w = (.ok (), j, w.note [.duplicateSubmit]) := by
  unfold submit
  rw [h]
  rfl

theorem submit_of_closed (h : j.isConfigured = true) (hopen : w.isOpen = false) :
    j.submit w = (.error (.configuration .closedSession), j, w) := by
  unfold submit
  rw [h, Session.send_of_closed hopen]
  rfl

theorem submit_of_isOpen (h : j.isConfigured = true) (hopen : w.isOpen = true) :
    j.submit w =
      (.ok (),
        { j with
          stage := .submitted (w.ticket j.endpoint (.run j.request))
          submissions := 1
          submittedAt := some w.now },
        w.sending j.endpoint (.run j.request)) := by
  unfold submit
  rw [h, ← request, Session.send_of_isOpen hopen]
  rfl

/-! ### Waiting -/

/-- The stage that the end of an exchange leads to. -/
def stageOf : Except JobError RunResult → Stage
  | .ok r => .ready r
  | .error e => .failed e

theorem stageOf_ne_configured (outcome : Except JobError RunResult) :
    stageOf outcome ≠ .configured := by
  cases outcome with
  | ok r => exact nofun
  | error e => exact nofun

theorem kept_of_stageOf {outcome : Except JobError RunResult} (h : j.stage = stageOf outcome) :
    j.isInFlight = false ∧ j.kept = outcome.map some := by
  unfold isInFlight kept
  rw [h]
  cases outcome with
  | ok r => exact ⟨rfl, rfl⟩
  | error e => exact ⟨rfl, rfl⟩

theorem isConfigured_of_ne (h : j.stage ≠ .configured) : j.isConfigured = false := by
  unfold isConfigured
  split
  · next hstage => exact absurd hstage h
  · rfl

theorem settle_of_submitted {ticket : Nat} (h : j.stage = .submitted ticket) (w : Session ω) :
    (j.settle w).1 = { j with
        stage := stageOf (j.deliver (Network.receive w.network ticket).1)
        stale := false } ∧
      (j.settle w).2.network = (Network.receive w.network ticket).2 ∧
      (j.settle w).2.isOpen = w.isOpen := by
  unfold settle
  rw [h]
  unfold Session.receive
  dsimp only
  cases hdeliver : j.deliver (Network.receive w.network ticket).1 with
  | ok r => exact ⟨rfl, rfl, rfl⟩
  | error e => exact ⟨rfl, rfl, rfl⟩

theorem settle_of_not_isInFlight (h : j.isInFlight = false) (w : Session ω) : j.settle w = (j, w) := by
  unfold settle
  unfold isInFlight at h
  split
  · next ticket hstage =>
    rw [hstage] at h
    cases h
  · rfl

/-- Waiting changes nothing but the stage, which is no longer in flight. -/
theorem settle_rest (j : Job) (w : Session ω) : (j.settle w).1.snapshot = j.snapshot ∧
    (j.settle w).1.isConfigured = j.isConfigured ∧ (j.settle w).1.isInFlight = false := by
  cases hflight : j.isInFlight with
  | false =>
    rw [settle_of_not_isInFlight hflight]
    exact ⟨rfl, rfl, hflight⟩
  | true =>
    unfold isInFlight at hflight
    split at hflight
    · next ticket hstage =>
      have hbefore : j.isConfigured = false := isConfigured_of_ne (by rw [hstage]; exact nofun)
      rw [(settle_of_submitted hstage w).1, hbefore]
      exact ⟨rfl, isConfigured_of_ne (stageOf_ne_configured _), (kept_of_stageOf rfl).1⟩
    · cases hflight

theorem gatherOne_eq (j : Job) (w : Session ω) : j.gatherOne w =
    (match (j.result w).1 with
      | .ok (some r) => .ok r
      | .ok none => .error (.notSubmitted (j.result w).2.1.id)
      | .error e => .error e, (j.result w).2) := by
  unfold gatherOne
  obtain ⟨(e | (_ | r)), j', w'⟩ := j.result w
  · rfl
  · rfl
  · rfl

/-! ### Replacing the parameters -/

/-- An upgrade is refused at once, or after the result that it waits for, or it sends the new
parameters. -/
theorem upgrade_cases (j : Job) (values : List Float) (w : Session ω) :
    (∃ e, j.upgrade values w = (.error e, j, w)) ∨
    (∃ e, ((j.settle w).1.kept = .error e ∨ e = .configuration .closedSession) ∧
      j.upgrade values w = (.error e, j.settle w)) ∨
    ∃ rebound kept, j.isConfigured = false ∧ j.snapshot.withParameters values = .ok rebound ∧
      (j.settle w).1.kept = .ok kept ∧
      j.upgrade values w =
        (.ok (),
          { (j.settle w).1 with
            snapshot := rebound
            stage := .submitted ((j.settle w).2.ticket (j.settle w).1.endpoint
              (.update ⟨(j.settle w).1.snapshot.id, values⟩))
            stale := true
            submissions := (j.settle w).1.submissions + 1
            submittedAt := some (j.settle w).2.now },
          (j.settle w).2.sending (j.settle w).1.endpoint
            (.update ⟨(j.settle w).1.snapshot.id, values⟩)) := by
  unfold upgrade
  split
  · exact .inl ⟨_, rfl⟩
  · split
    · exact .inl ⟨_, rfl⟩
    · next hconfigured =>
      split
      · exact .inl ⟨_, rfl⟩
      · next rebound hrebound =>
        right
        generalize j.settle w = settled
        obtain ⟨j', w'⟩ := settled
        dsimp only
        cases hkept : j'.kept with
        | error e => exact .inl ⟨e, .inl rfl, rfl⟩
        | ok kept =>
          dsimp only
          cases hopen : w'.isOpen with
          | false =>
            rw [Session.send_of_closed hopen]
            exact .inl ⟨_, .inr rfl, rfl⟩
          | true =>
            rw [Session.send_of_isOpen hopen]
            exact .inr ⟨rebound, kept, Bool.eq_false_iff.2 hconfigured, hrebound, rfl, rfl⟩

end QuantumRelay.Job
