import QuantumRelay.Engine.Shot
import QuantumRelay.Outcome.Counts
import QuantumRelay.Outcome.Key
import QuantumRelay.Random.ChaCha

/-!
# Running a group

The circuits of a group take turns in group order, each going on until it has finished or has to
wait. When a whole round brings no circuit forward, the run is over: with outcomes if all have
finished, with a deadlock otherwise. Every shot starts from a fresh state and goes on with the draws
that the shot before has left.
-/

namespace QuantumRelay.Engine

variable {σ R : Type}

def pending (work : List (List (Task R))) : Nat := work.flatten.length

/-- The waits of circuits that have tasks left. -/
def waits (members : List (Member R)) (work : List (List (Task R))) : List Wait :=
  (members.zip work).filterMap fun (m, tasks) => tasks.head?.map fun t =>
    ⟨m.id, t.instruction.name, t.instruction.peer.getD "?"⟩

variable [Scalar R] [DrawSource σ]

/-- Carry tasks of one circuit out until one has to wait. -/
def advance (own : Nat) : List (Task R) → Shot σ R → List (Task R) × Shot σ R
  | [], s => ([], s)
  | t :: rest, s =>
    match t.action.perform? own s with
    | some s => advance own rest s
    | none => (t :: rest, s)

/-- One turn of every circuit from place `own` on. -/
def round (own : Nat) : List (List (Task R)) → Shot σ R → List (List (Task R)) × Shot σ R
  | [], s => ([], s)
  | tasks :: rest, s =>
    let (tasks, s) := advance own tasks s
    let (rest, s) := round (own + 1) rest s
    (tasks :: rest, s)

/-- Rounds until one leaves as many tasks as there were. -/
def settle (work : List (List (Task R))) (s : Shot σ R) : List (List (Task R)) × Shot σ R :=
  match round 0 work s with
  | (left, s) => if pending left < pending work then settle left s else (left, s)
termination_by pending work

def runShot (l : Layout R) (source : σ) : Except SimulationError (Shot σ R) :=
  let (left, s) := settle (l.members.map (·.tasks)) (.start l source)
  if pending left = 0 then .ok s else .error (.deadlock (waits l.members left))

/-- Count the outcomes of `n` shots, in addition to what has been counted. No run has so many shots that
their number is no word. -/
def runShots (l : Layout R) : Nat → σ → List Counts → Except SimulationError (List Counts)
  | 0, _, counts => .ok counts
  | n + 1, source, counts =>
    match runShot l source with
    | .error e => .error e
    | .ok s =>
      runShots l n s.source
        (counts.zipWith (fun c bits => c.plus (OutcomeKey.packHex bits) 1) s.clbits)

/-- Count the outcomes of a group with draws from `source`. -/
def simulate (R : Type) [Scalar R] (maxQubits : Nat) (source : σ) (group : List RunRequest)
    (config : RunConfig) : Except SimulationError (List Counts) :=
  if config.method = .automatic || config.method = .statevector then do
    let l : Layout R ← Layout.ofGroup maxQubits group
    runShots l config.shots.toNat source (group.map fun _ => {})
  else .error (.unsupportedMethod config.method)

/-- How many qubits a simulator takes unless told otherwise. -/
def defaultMaxQubits : Nat := 24

/-- Count the outcomes of a group, packed keys per circuit. The draws come from the seed of the
settings, or else from the seed given. -/
def run (maxQubits : Nat) (otherwise : UInt64) (group : List RunRequest) (config : RunConfig) :
    Except SimulationError (List Counts) :=
  simulate Float maxQubits (SeededDraws.ofSeed (config.seed.getD otherwise)) group config

end QuantumRelay.Engine
