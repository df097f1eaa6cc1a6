import QuantumRelay.Proofs.Job.Gathering
import QuantumRelay.Proofs.Outcome.Reading

/-!
# What an upgrade asks for and what failing calls leave behind

New parameters go out if nothing stands in their way: `Job.obstacles` lists what does, in the order of
the checks, and the first obstacle is the failure that is reported (`upgrade_eq`). A refusal comes before
anything is waited for, so it changes nothing at all; any other failure comes after the wait, which
changes the stage only (`settle_eq_with`).

The obstacles are told by what the job is and by what has passed, not by its stage and its flag: in every
state that a conversation gets to, the flag tells whether there are parameters (`Stands.parametric`), the
job is configured until something has been sent, and what a run fails with is the failure of an exchange
(`Stands.isOfRun`).
-/

namespace QuantumRelay

namespace JobError

def isRefusal : JobError → Bool
  | .notParametric _ | .notSubmitted _ | .invalidParameters _ => true
  | _ => false

/-- Whether an exchange failed: it broke down, or its answer is an error marker or no result, or stops the
program. -/
def isOfRun : JobError → Bool
  | .transport .. | .remote .. | .invalidResult _ | .stopped => true
  | _ => false

end JobError

namespace Job

variable {ω : Type} {j₀ j : Job} {p : List Passage} {e : JobError}

/-! ### Failures of a run -/

theorem isOfRun_of_parse {raw : Json} {s : Snapshot} {endpoint : String}
    (h : RunResult.parse raw s endpoint = .error e) : e.isOfRun = true := by
  unfold RunResult.parse at h
  split at h
  · obtain rfl := Except.error.inj h
    rfl
  · obtain rfl := Except.error.inj h
    rfl
  · obtain rfl := Except.error.inj h
    rfl
  · obtain rfl := Except.error.inj h
    rfl
  · next packed time _ _ =>
    obtain ⟨c, hc⟩ | hc | ⟨key, why, hc⟩ := RunResult.countKeys_cases s {} packed.entries
    · rw [hc] at h
      cases h
    · rw [hc] at h
      obtain rfl := Except.error.inj h
      rfl
    · rw [hc] at h
      obtain rfl := Except.error.inj h
      rfl

theorem isOfRun_of_logged {r : RunResult} (h : r.logged = .error e) : e.isOfRun = true := by
  unfold RunResult.logged at h
  split at h
  · obtain rfl := Except.error.inj h
    rfl
  · cases h

theorem isOfRun_of_deliver {delivery : Delivery} (h : j.deliver delivery = .error e) :
    e.isOfRun = true := by
  cases delivery with
  | answer raw =>
    obtain hparse | ⟨r, -, hlogged⟩ := bind_eq_error.1 h
    · exact isOfRun_of_parse hparse
    · exact isOfRun_of_logged hlogged
  | broken endpoint reason =>
    obtain rfl := Except.error.inj h
    rfl
  | died reason =>
    obtain rfl := Except.error.inj h
    rfl

theorem isRefusal_of_isOfRun (h : e.isOfRun = true) : e.isRefusal = false := by
  cases e with
  | transport | remote | invalidResult | stopped => rfl
  | circuit | notParametric | notSubmitted | invalidParameters | configuration | unknownEndpoint =>
    cases h

theorem Stands.isOfRun (h : Stands j₀ j p) (hsubmitted : j.isConfigured = false) (hnew : New j₀)
    {answer : Nat → Delivery} (he : j.comesTo answer = .error e) : e.isOfRun = true := by
  cases h with
  | fresh =>
    rw [hnew.isConfigured] at hsubmitted
    cases hsubmitted
  | waiting => exact isOfRun_of_deliver he
  | @answered rounds r =>
    cases houtcome : r.outcome j₀ with
    | ok result =>
      rw [comesTo, reached, houtcome] at he
      cases he
    | error e' =>
      rw [comesTo, reached, houtcome] at he
      obtain rfl := Except.error.inj he
      exact isOfRun_of_deliver houtcome

theorem Stands.parametric {id : String} {endpoint : Endpoint} {s : Snapshot} {config : RunConfig}
    {execType : ExecType} (hmade : ofExecType id endpoint s config execType = .ok j₀)
    (h : Stands j₀ j p) : j.snapshot.isParametric = true ↔ j.snapshot.parameters ≠ [] := by
  obtain ⟨rfl, -⟩ | ⟨rounds, m, stage, stale, submittedAt, hcourse, rfl, -⟩ := h.last
  · obtain ⟨snapshot, hsnapshot, -, -, rfl⟩ := ofExecType_eq_ok.1 hmade
    exact Snapshot.parametric_of_normalized hsnapshot
  · exact Snapshot.parametric_of_normalized (normalized_asked hmade hcourse.asks)

/-! ### Obstacles -/

instance (is : List Instruction) (values : List Float) : Decidable (Parameters.Fits is values) :=
  inferInstanceAs (Decidable (_ ∧ _))

/-- What stands in the way if a condition does not hold. -/
def need (holds : Bool) (e : JobError) : List JobError := if holds then [] else [e]

variable [Network ω] {w : Session (Recorded ω)} {values : List Float}

/-- What stands in the way of new parameters, in the order in which it is looked at. -/
def obstacles (j : Job) (values : List Float) (w : Session (Recorded ω)) : List JobError :=
  need (!j.snapshot.parameters.isEmpty) (.notParametric j.snapshot.id) ++
  (need (!w.network.sent.isEmpty) (.notSubmitted j.id) ++
  (need (Parameters.Fits j.snapshot.instructions values) (.invalidParameters
    (.parameterMismatch j.snapshot.id j.snapshot.parameters.length values.length)) ++
  ((match j.comesTo w.answer with
    | .ok _ => []
    | .error e => [e]) ++
  need w.isOpen (.configuration .closedSession))))

def upgraded (j : Job) (values : List Float) (w : Session (Recorded ω)) :
    Job × Session (Recorded ω) :=
  let (j', w') := j.settle w
  ({ j' with
      snapshot := j.asked (j.updateOf values)
      stage := .submitted (w'.ticket j.endpoint (j.updateOf values))
      stale := true
      submissions := j.submissions + 1
      submittedAt := some w'.now },
    w'.sending j.endpoint (j.updateOf values))

theorem kept_settle (h : j.isConfigured = false) :
    (j.settle w).1.kept = (j.comesTo w.answer).map some := by
  rw [← comesTo_settle j w w.answer]
  obtain ⟨-, hstays, hidle⟩ := settle_rest j w
  rw [h] at hstays
  unfold isConfigured at hstays
  unfold isInFlight at hidle
  unfold kept comesTo
  cases hstage : (j.settle w).1.stage with
  | configured =>
    rw [hstage] at hstays
    cases hstays
  | submitted ticket =>
    rw [hstage] at hidle
    cases hidle
  | ready | failed => rfl

theorem settle_of_isRefusal (h : j.comesTo w.answer = .error e) (he : e.isRefusal = true) :
    j.settle w = (j, w) := by
  cases hstage : j.stage with
  | configured | ready | failed => exact settle_of_not_isInFlight (by rw [isInFlight, hstage]) w
  | submitted ticket =>
    rw [comesTo, hstage] at h
    rw [isRefusal_of_isOfRun (isOfRun_of_deliver h)] at he
    cases he

theorem isOpen_settle (j : Job) (w : Session (Recorded ω)) : (j.settle w).2.isOpen = w.isOpen := by
  cases hstage : j.stage with
  | configured | ready | failed =>
    rw [settle_of_not_isInFlight (by rw [isInFlight, hstage])]
  | submitted ticket => exact (settle_of_submitted hstage w).2.2

/-- Parameters that fit go out after the wait, or the wait's failure or a closed session stops them. -/
theorem upgrade_of_fits (hparametric : j.snapshot.isParametric = true)
    (hsubmitted : j.isConfigured = false) (hfits : Parameters.Fits j.snapshot.instructions values) :
    j.upgrade values w =
      match j.comesTo w.answer with
      | .error e => (.error e, j.settle w)
      | .ok _ =>
        if w.isOpen then (.ok (), j.upgraded values w)
        else (.error (.configuration .closedSession), j.settle w) := by
  have hkept := kept_settle (w := w) hsubmitted
  have hopen := isOpen_settle j w
  have hrest := settle_eq_with j w
  unfold upgrade upgraded
  rw [hparametric, hsubmitted, Snapshot.withParameters_eq_ok.2 ⟨hfits, rfl⟩]
  generalize j.settle w = settled at hkept hopen hrest ⊢
  obtain ⟨j', w'⟩ := settled
  dsimp only at hkept hopen hrest ⊢
  rw [hkept]
  cases j.comesTo w.answer with
  | error e => rfl
  | ok r =>
    rw [← hopen]
    cases hopen' : w'.isOpen with
    | false =>
      dsimp only [Except.map]
      rw [Session.send_of_closed hopen']
      rfl
    | true =>
      dsimp only [Except.map]
      rw [Session.send_of_isOpen hopen', hrest]
      rfl

section told

variable (hparametric : j.snapshot.isParametric = true ↔ j.snapshot.parameters ≠ [])
  (hconfigured : j.isConfigured = true ↔ w.network.sent = [])

include hparametric hconfigured

theorem upgrade_eq : j.upgrade values w =
      match j.obstacles values w with
      | [] => (.ok (), j.upgraded values w)
      | e :: _ => (.error e, if e.isRefusal then (j, w) else j.settle w) := by
  have hparameters : (!j.snapshot.parameters.isEmpty) = j.snapshot.isParametric := by
    rw [Bool.eq_iff_iff, hparametric]
    simp
  have hsent : (!w.network.sent.isEmpty) = !j.isConfigured := by
    rw [Bool.eq_iff_iff, Bool.not_eq_true', Bool.not_eq_true', ← Bool.not_eq_true,
      ← Bool.not_eq_true, hconfigured]
    simp
  unfold obstacles
  rw [hparameters, hsent]
  cases hflag : j.snapshot.isParametric with
  | false =>
    unfold upgrade
    rw [hflag]
    rfl
  | true =>
    cases hsubmitted : j.isConfigured with
    | true =>
      unfold upgrade
      rw [hflag, hsubmitted]
      rfl
    | false =>
      by_cases hfits : Parameters.Fits j.snapshot.instructions values
      · rw [upgrade_of_fits hflag hsubmitted hfits, decide_eq_true hfits]
        cases hcomes : j.comesTo w.answer with
        | error e =>
          show (Except.error e, j.settle w) = (.error e, if e.isRefusal then (j, w) else j.settle w)
          cases he : e.isRefusal with
          | false => rfl
          | true => rw [settle_of_isRefusal hcomes he, ite_self]
        | ok r => cases w.isOpen <;> rfl
      · unfold upgrade
        rw [hflag, hsubmitted, Snapshot.withParameters_of_not_fits hfits, decide_eq_false hfits]
        rfl

theorem upgrade_eq_ok_iff : (j.upgrade values w).1 = .ok () ↔ j.obstacles values w = [] := by
  rw [upgrade_eq hparametric hconfigured]
  cases j.obstacles values w <;> simp

theorem upgrade_eq_error_iff :
    (j.upgrade values w).1 = .error e ↔ (j.obstacles values w).head? = some e := by
  rw [upgrade_eq hparametric hconfigured]
  cases j.obstacles values w <;> simp

/-- A failed upgrade that is no refusal has waited. -/
theorem upgrade_failed (h : (j.upgrade values w).1 = .error e) :
    (j.upgrade values w).2 = if e.isRefusal then (j, w) else j.settle w := by
  obtain ⟨rest, hobstacles⟩ :=
    List.head?_eq_some_iff.1 ((upgrade_eq_error_iff hparametric hconfigured).1 h)
  rw [upgrade_eq hparametric hconfigured, hobstacles]

theorem upgrade_succeeded (h : (j.upgrade values w).1 = .ok ()) :
    (j.upgrade values w).2 = j.upgraded values w := by
  rw [upgrade_eq hparametric hconfigured, (upgrade_eq_ok_iff hparametric hconfigured).1 h]

end told

theorem obstacles_eq_nil_iff : j.obstacles values w = [] ↔
    j.snapshot.parameters ≠ [] ∧ w.network.sent ≠ [] ∧
      Parameters.Fits j.snapshot.instructions values ∧ (∃ r, j.comesTo w.answer = .ok r) ∧
      w.isOpen = true := by
  have hneed (holds : Bool) (e : JobError) : need holds e = [] ↔ holds = true := by
    unfold need
    cases holds <;> simp
  have hcomes : (match j.comesTo w.answer with
      | .ok _ => []
      | .error e => [e]) = [] ↔ ∃ r, j.comesTo w.answer = .ok r := by
    cases j.comesTo w.answer <;> simp
  simp only [obstacles, List.append_eq_nil_iff, hneed, hcomes, decide_eq_true_eq, Bool.not_eq_true',
    List.isEmpty_eq_false_iff]

theorem isRefusal_of_unsent (hsent : w.network.sent = [])
    (h : (j.obstacles values w).head? = some e) : e.isRefusal = true := by
  unfold obstacles need at h
  rw [hsent] at h
  cases hparameters : j.snapshot.parameters with
  | nil =>
    rw [hparameters] at h
    obtain rfl := Option.some.inj h
    rfl
  | cons =>
    rw [hparameters] at h
    obtain rfl := Option.some.inj h
    rfl

theorem sent_upgraded (j : Job) (values : List Float) (w : Session (Recorded ω)) :
    (j.upgraded values w).2.network.sent =
      w.network.sent ++ [(j.endpoint.socket, j.updateOf values)] := by
  rw [← sent_settle j w]
  exact Recorded.sent_send ..

/-! ### Failing calls -/

/-- What upgrades and submissions keep to, and what is left if they fail. -/
structure FailsCleanly (j : Job) (w : Session (Recorded ω)) : Prop where
  /-- The circuit's flag tells whether it has parameters. -/
  parametric : j.snapshot.isParametric = true ↔ j.snapshot.parameters ≠ []
  /-- An upgrade succeeds exactly if there are parameters, something was sent, the new ones fit, the
  current run comes to a result and the session is open. -/
  upgrade_eq_ok : ∀ values, (j.upgrade values w).1 = .ok () ↔
    j.snapshot.parameters ≠ [] ∧ w.network.sent ≠ [] ∧
      Parameters.Fits j.snapshot.instructions values ∧ (∃ r, j.comesTo w.answer = .ok r) ∧
      w.isOpen = true
  /-- Otherwise it fails with the first thing that stands in its way. -/
  upgrade_eq_error : ∀ values e,
    (j.upgrade values w).1 = .error e ↔ (j.obstacles values w).head? = some e
  /-- A failed run is told from all other failures. -/
  run : w.network.sent ≠ [] → ∀ e, j.comesTo w.answer = .error e → e.isOfRun = true
  /-- A refused upgrade leaves everything as it was. -/
  refused : ∀ values e, (j.upgrade values w).1 = .error e → e.isRefusal = true →
    (j.upgrade values w).2 = (j, w)
  /-- An upgrade that fails later leaves the job with what its run came to, and all else of it as it
  was, except that no result is stale after a wait. -/
  failed : ∀ values e, (j.upgrade values w).1 = .error e → e.isRefusal = false →
    (j.upgrade values w).2.1 = { j with
      stage := stageOf (j.comesTo w.answer)
      stale := (j.upgrade values w).2.1.stale }
  unsent : ∀ values e, (j.upgrade values w).1 = .error e →
    (j.upgrade values w).2.2.network.sent = w.network.sent
  /-- Only an upgrade that succeeds sends something, once, and has new parameters. -/
  sent : ∀ values, (j.upgrade values w).1 = .ok () →
    (j.upgrade values w).2.2.network.sent =
        w.network.sent ++ [(j.endpoint.socket, j.updateOf values)] ∧
      (j.upgrade values w).2.1.snapshot.parameters = values ∧
      (j.upgrade values w).2.1.submissions = j.submissions + 1
  /-- A submission fails exactly if it is the first one and the session is closed. -/
  submit_eq_error : ∀ e, (j.submit w).1 = .error e ↔
    w.network.sent = [] ∧ w.isOpen = false ∧ e = .configuration .closedSession
  /-- It leaves everything as it was: a configured job. -/
  submit_failed : ∀ e, (j.submit w).1 = .error e →
    (j.submit w).2 = (j, w) ∧ j.isConfigured = true

theorem stage_settle (h : j.isConfigured = false) :
    (j.settle w).1.stage = stageOf (j.comesTo w.answer) := by
  cases hcomes : j.comesTo w.answer with
  | ok r => exact stage_settle_of_ok hcomes
  | error e =>
    obtain hfailed | ⟨hstage, -, -⟩ := settle_of_error hcomes
    · exact hfailed
    · rw [isConfigured, hstage] at h
      cases h

theorem submit_eq_error {e : JobError} : (j.submit w).1 = .error e ↔
    j.isConfigured = true ∧ w.isOpen = false ∧ e = .configuration .closedSession := by
  cases hconfigured : j.isConfigured with
  | false => simp [submit_again hconfigured]
  | true =>
    cases hopen : w.isOpen with
    | false => simp [submit_of_closed hconfigured hopen, eq_comm]
    | true => simp [submit_of_isOpen hconfigured hopen]

/-- Whatever has been called on a job that was made, over whatever network, its calls fail cleanly. -/
theorem converse_failsCleanly {id : String} {endpoint : Endpoint} {s : Snapshot}
    {config : RunConfig} {execType : ExecType}
    (hmade : ofExecType id endpoint s config execType = .ok j₀) {w : Session (Recorded ω)}
    (hrecord : w.network.record = []) (steps : List (Step ω)) :
    FailsCleanly (j₀.converse w steps).1 (j₀.converse w steps).2 := by
  have hnew := new_of_ofExecType hmade
  have hstands : Stands j₀ (j₀.converse w steps).1 (j₀.converse w steps).2.network.record :=
    Stands.converse (hrecord ▸ .fresh) hnew steps
  generalize j₀.converse w steps = now at hstands ⊢
  obtain ⟨j, w⟩ := now
  dsimp only at hstands ⊢
  have hparametric := hstands.parametric hmade
  have hconfigured := hstands.configured hnew
  have hsubmitted (h : w.network.sent ≠ []) : j.isConfigured = false := by
    rwa [← Bool.not_eq_true, hconfigured]
  exact {
    parametric := hparametric
    upgrade_eq_ok := fun values => by
      rw [← obstacles_eq_nil_iff]
      exact upgrade_eq_ok_iff hparametric hconfigured
    upgrade_eq_error := fun values e => upgrade_eq_error_iff hparametric hconfigured
    run := fun hsent e he => hstands.isOfRun (hsubmitted hsent) hnew he
    refused := fun values e h he => by
      rw [upgrade_failed hparametric hconfigured h, if_pos he]
    failed := fun values e h he => by
      have hsent : w.network.sent ≠ [] := fun hsent => by
        rw [isRefusal_of_unsent hsent ((upgrade_eq_error_iff hparametric hconfigured).1 h)] at he
        cases he
      have hsettled : (j.upgrade values w).2 = j.settle w := by
        rw [upgrade_failed hparametric hconfigured h, he]
        rfl
      rw [hsettled, ← stage_settle (hsubmitted hsent)]
      exact settle_eq_with j w
    unsent := fun values e h => by
      rw [upgrade_failed hparametric hconfigured h]
      split
      · rfl
      · exact sent_settle j w
    sent := fun values h => by
      have hnone := (upgrade_eq_ok_iff hparametric hconfigured).1 h
      rw [upgrade_succeeded hparametric hconfigured h]
      exact ⟨sent_upgraded j values w,
        Parameters.collect_assign (obstacles_eq_nil_iff.1 hnone).2.2.1.1, rfl⟩
    submit_eq_error := fun e => by rw [submit_eq_error, hconfigured]
    submit_failed := fun e h => by
      obtain ⟨hconfigured, hclosed, -⟩ := submit_eq_error.1 h
      rw [submit_of_closed hconfigured hclosed]
      exact ⟨rfl, hconfigured⟩ }

/-! ### An upgrade -/

/-- Without an answer yet, a vector of the wrong length is refused, in a closed session too. One that
fits waits for the answer, which stays when the session turns out to be closed; in an open one it is
sent. -/
theorem dial_failsCleanly :
    ofExecType "#0" dial.endpoint dial.snapshot {} .offloading = .ok dial ∧
    let w : Session (Recorded Ended) := { network := ⟨{ deliveries := [allZero 3] }, []⟩ }
    w.network.record = [] ∧
    let now := dial.converse w [.call .submit]
    let closed := { now.2 with isOpen := false }
    FailsCleanly now.1 now.2 ∧
    (now.1.upgrade [] closed).1 = .error (.invalidParameters (.parameterMismatch "dial" 1 0)) ∧
    (now.1.upgrade [] closed).2.1.isInFlight = true ∧
    (now.1.upgrade [0.25] closed).1 = .error (.configuration .closedSession) ∧
    (now.1.upgrade [0.25] closed).2.1.kept.map (·.map (·.shots)) = .ok (some (.ok 3)) ∧
    (now.1.upgrade [0.25] now.2).1 = .ok () ∧
    (dial.upgrade [0.25] closed).1 = .error (.notSubmitted "#0") := by
  have hmade : ofExecType "#0" dial.endpoint dial.snapshot {} .offloading = .ok dial := rfl
  exact ⟨hmade, rfl, converse_failsCleanly hmade rfl _, rfl, rfl, rfl, rfl, rfl, rfl⟩

end Job

end QuantumRelay
