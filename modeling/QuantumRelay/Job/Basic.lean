import QuantumRelay.Circuit.Basic
import QuantumRelay.Exchange.Network
import QuantumRelay.Outcome.Result

/-!
# Jobs

A `Job` is one circuit bound for one endpoint. It is submitted once; its result is waited for and
kept; after that its parameters may be replaced, which starts the next exchange. At most one exchange
is under way, and a job that has failed stays so. The log is taken to be kept in full, which makes the
shots of a result be added up as soon as it is there.

Every operation takes the job and the session and gives back both beside its outcome, so what an
operation that fails has changed can be seen in what it gives back.
-/

namespace QuantumRelay

/-- How far a job is. -/
inductive Stage where
  | configured
  | submitted (ticket : Nat)
  | ready (result : RunResult)
  | failed (e : JobError)

def Stage.name : Stage → String
  | .configured => "Configured"
  | .submitted _ => "Submitted"
  | .ready _ => "ResultReady"
  | .failed _ => "Failed"

/-- One circuit bound for one endpoint. -/
structure Job where
  id : String
  endpoint : Endpoint
  snapshot : Snapshot
  config : RunConfig
  execType : ExecType
  stage : Stage := .configured
  /-- Whether the result last seen belongs to parameters that have been replaced. -/
  stale : Bool := false
  /-- How many messages were sent. -/
  submissions : UInt32 := 0
  submittedAt : Option Nat := none

namespace Job

variable {ω : Type}

/-- The job of a snapshot, run in a given way: the snapshot has to describe a circuit, the settings
have to make sense, and the circuit has to fit the backend. -/
def ofExecType (id : String) (endpoint : Endpoint) (s : Snapshot) (config : RunConfig)
    (execType : ExecType) : Except JobError Job :=
  match s.normalized with
  | .error e => .error (.circuit e)
  | .ok snapshot =>
    match config.fault? with
    | some fault => .error (.configuration (.settings fault))
    | none =>
      match endpoint.backend.fault? snapshot with
      | some fault => .error (.configuration (.backend fault))
      | none => .ok { id, endpoint, snapshot, config, execType }

/-- The job of a snapshot, run in the way that its relays ask for. -/
def ofSnapshot (id : String) (endpoint : Endpoint) (s : Snapshot) (config : RunConfig) :
    Except JobError Job :=
  ofExecType id endpoint s config (.ofSnapshot s)

def ofCircuit (id : String) (endpoint : Endpoint) (c : Circuit) (config : RunConfig) :
    Except JobError Job :=
  ofSnapshot id endpoint c.snapshot config

def isInFlight (j : Job) : Bool :=
  match j.stage with
  | .submitted _ => true
  | _ => false

def isConfigured (j : Job) : Bool :=
  match j.stage with
  | .configured => true
  | _ => false

variable [Network ω]

/-- Send the circuit to the endpoint. A job that was submitted before is left as it is. -/
def submit (j : Job) (w : Session ω) : Except JobError Unit × Job × Session ω :=
  if !j.isConfigured then (.ok (), j, w.note [.duplicateSubmit])
  else
    match w.send j.endpoint (.run (.ofSnapshot j.snapshot j.config j.execType)) with
    | .error fault => (.error (.configuration fault), j, w)
    | .ok (ticket, w) =>
      (.ok (), { j with stage := .submitted ticket, submissions := 1, submittedAt := some w.now }, w)

/-- What the end of an exchange makes of a job. -/
def deliver (j : Job) : Delivery → Except JobError RunResult
  | .answer raw => (RunResult.parse raw j.snapshot j.endpoint.id).bind RunResult.logged
  | .broken endpoint reason => .error (.transport endpoint reason)
  | .died reason => .error (.transport j.endpoint.id s!"request task ended: {reason}")

/-- Wait for the exchange that is under way, if any, and keep what it came to. -/
def settle (j : Job) (w : Session ω) : Job × Session ω :=
  match j.stage with
  | .submitted ticket =>
    let (delivery, w) := w.receive ticket
    match j.deliver delivery with
    | .ok result => ({ j with stage := .ready result, stale := false }, w)
    | .error e => ({ j with stage := .failed e, stale := false }, w.note [.jobFailed])
  | _ => (j, w)

/-- The result or failure that a job keeps. -/
def kept (j : Job) : Except JobError (Option RunResult) :=
  match j.stage with
  | .ready result => .ok (some result)
  | .failed e => .error e
  | _ => .ok none

/-- The result, waited for if need be; none for a job that was never submitted. -/
def result (j : Job) (w : Session ω) : Except JobError (Option RunResult) × Job × Session ω :=
  let (j, w) := j.settle w
  (j.kept, j, w)

/-- Replace the parameters and start the next exchange, after the result of the current one. -/
def upgrade (j : Job) (values : List Float) (w : Session ω) :
    Except JobError Unit × Job × Session ω :=
  if !j.snapshot.isParametric then (.error (.notParametric j.snapshot.id), j, w)
  else if j.isConfigured then (.error (.notSubmitted j.id), j, w)
  else
    match j.snapshot.withParameters values with
    | .error e => (.error (.invalidParameters e), j, w)
    | .ok rebound =>
      let (j, w) := j.settle w
      match j.kept with
      | .error e => (.error e, j, w)
      | .ok _ =>
        match w.send j.endpoint (.update ⟨j.snapshot.id, values⟩) with
        | .error fault => (.error (.configuration fault), j, w)
        | .ok (ticket, w) =>
          (.ok (),
            { j with
              snapshot := rebound
              stage := .submitted ticket
              stale := true
              submissions := j.submissions + 1
              submittedAt := some w.now }, w)

/-! ### Gathering -/

/-- The result of a job that has to have been submitted. -/
def gatherOne (j : Job) (w : Session ω) : Except JobError RunResult × Job × Session ω :=
  let (outcome, j, w) := j.result w
  match outcome with
  | .ok (some result) => (.ok result, j, w)
  | .ok none => (.error (.notSubmitted j.id), j, w)
  | .error e => (.error e, j, w)

/-- The results of jobs in their order. The first job without one ends the gathering; the jobs after
it are left as they are. -/
def gather (w : Session ω) : List Job → Except JobError (List RunResult) × List Job × Session ω
  | [] => (.ok [], [], w)
  | j :: rest =>
    let (outcome, j, w) := j.gatherOne w
    match outcome with
    | .error e => (.error e, j :: rest, w)
    | .ok result =>
      let (outcome, rest, w) := gather w rest
      (outcome.map (result :: ·), j :: rest, w)

end Job

end QuantumRelay
