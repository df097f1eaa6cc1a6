import QuantumRelay.Exchange.Message
import QuantumRelay.Job.Error
import QuantumRelay.Outcome.Counts
import QuantumRelay.Outcome.Key

/-!
# Results

`RunResult.parse` turns the answer of an endpoint into the result of a circuit. An error marker
counts before all else in an answer; then counts, a time, and every packed key, in key order, have to
be right. `RunResult.registerCounts` is the marginal of one classical register. Wherever numbers are added
the program stops if their sum is no word.
-/

namespace QuantumRelay

structure RunResult where
  circuitId : String
  endpoint : String
  /-- How often each outcome came out, outcomes grouped by register. -/
  counts : Counts
  timeTaken : Float
  parameters : List Float := []
deriving BEq, Inhabited

namespace RunResult

def countKeys (s : Snapshot) (c : Counts) : List (String × UInt64) → Except JobError Counts
  | [] => .ok c
  | (key, n) :: rest =>
    match OutcomeKey.unpack key s.numClbits.toNat with
    | .error fault => .error (.invalidResult (.key key fault))
    | .ok bits =>
      match c.insert (OutcomeKey.grouped bits s.classicalRegisters) n with
      | .error .overflow => .error .stopped
      | .ok c => countKeys s c rest

def parse (raw : Json) (s : Snapshot) (endpoint : String) : Except JobError RunResult :=
  match Response.ofJson? raw with
  | none => .error (.invalidResult .shape)
  | some { error := some message, .. } => .error (.remote endpoint message)
  | some { counts := none, .. } => .error (.invalidResult .noCounts)
  | some { counts := some _, timeTaken := none, .. } => .error (.invalidResult .noTiming)
  | some { counts := some packed, timeTaken := some timeTaken, .. } =>
    (countKeys s {} packed.entries).map fun counts =>
      { circuitId := s.id, endpoint, counts, timeTaken, parameters := s.parameters }

def shots (r : RunResult) : Except Overflow UInt64 := r.counts.total

/-- A result as it is kept: its shots are added up for the log first. -/
def logged (r : RunResult) : Except JobError RunResult :=
  match r.shots with
  | .error .overflow => .error .stopped
  | .ok _ => .ok r

def countGroups (position : Nat) (c : Counts) :
    List (String × UInt64) → Except Overflow (Option Counts)
  | [] => .ok (some c)
  | (outcome, n) :: rest =>
    match (OutcomeKey.parts outcome.toList)[position]? with
    | none => .ok none
    | some g => do countGroups position (← c.insert (String.ofList g) n) rest

def registerCounts (r : RunResult) (s : Snapshot) (register : String) :
    Except Overflow (Option Counts) :=
  match s.classicalRegisters.reverse.findIdx? (·.name == register) with
  | none => .ok none
  | some position => countGroups position {} r.counts.map.entries

def toJson (r : RunResult) : Json :=
  .object <|
    [("circuit_id", .text r.circuitId), ("endpoint", .text r.endpoint),
      ("counts", r.counts.toJson), ("time_taken", .float r.timeTaken)] ++
    Json.fieldUnless r.parameters.isEmpty "parameters" (.array (r.parameters.map .float))

end RunResult

end QuantumRelay
