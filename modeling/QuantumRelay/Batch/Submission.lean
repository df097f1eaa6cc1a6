import QuantumRelay.Batch.Resolution
import QuantumRelay.Job.Basic

/-!
# Submitting a batch

A batch is submitted as a whole: it is resolved, every circuit gets a job on the endpoint at its
place, and only when all jobs stand are they submitted, all in the same way.
-/

namespace QuantumRelay

structure SubmittedBatch where
  jobs : List Job
  resolution : Resolution

namespace SubmittedBatch

variable {ω : Type}

def makeJobs (config : RunConfig) (execType : ExecType) (next : Nat) :
    List (Snapshot × Endpoint) → Except JobError (List Job)
  | [] => .ok []
  | (s, e) :: rest => do
    let job ← Job.ofExecType s!"#{next}" e s config execType
    pure (job :: (← makeJobs config execType (next + 1) rest))

def submitJobs [Network ω] (w : Session ω) : List Job → Except JobError (List Job) × Session ω
  | [] => (.ok [], w)
  | j :: rest =>
    let (outcome, j, w) := j.submit w
    match outcome with
    | .error e => (.error e, w)
    | .ok () =>
      let (outcome, w) := submitJobs w rest
      (outcome.map (j :: ·), w)

def submit [Network ω] (circuits : List Snapshot) (endpoints : List Endpoint) (config : RunConfig)
    (w : Session ω) : Except JobError SubmittedBatch × Session ω :=
  if circuits.length ≠ endpoints.length then
    (.error (.configuration (.unevenBatch circuits.length endpoints.length)), w)
  else
    match Resolution.ofBatch .report circuits with
    | .error e => (.error (.circuit e), w)
    | .ok resolution =>
      let w := w.note resolution.notices
      let execType := if resolution.isDistributed then .dynamic else .offloading
      match makeJobs config execType 0 (circuits.zip endpoints) with
      | .error e => (.error e, w)
      | .ok jobs =>
        let (outcome, w) := submitJobs w jobs
        (outcome.map (⟨·, resolution⟩), w)

end SubmittedBatch

end QuantumRelay
