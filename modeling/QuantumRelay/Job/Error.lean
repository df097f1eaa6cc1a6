import QuantumRelay.Circuit.Error
import QuantumRelay.Outcome.Key
import QuantumRelay.Settings.Backend
import QuantumRelay.Settings.Run

/-!
# What can go wrong with a job

Causes of failure on the way from a circuit to a result, and their wording.
-/

namespace QuantumRelay

/-- Why a file cannot be read. -/
inductive FileFault where
  | missing
  | insideFile
  /-- The path is no name that a file could have. -/
  | badName (reason : String)
  | isFolder
  | other (reason : String)
deriving DecidableEq, Repr

def FileFault.message : FileFault → String
  | .missing => "No such file or directory"
  | .insideFile => "Not a directory"
  | .badName reason => reason
  | .isFolder => "Is a directory"
  | .other reason => reason

def FileFault.isAbsent : FileFault → Bool
  | .missing => true
  | .insideFile => true
  | .badName _ => true
  | .isFolder => false
  | .other _ => false

inductive ConfigurationFault where
  | settings (fault : SettingsFault)
  | backend (fault : BackendFault)
  | unevenBatch (circuits endpoints : Nat)
  /-- Exchanges can be started in an open session only. -/
  | closedSession
  | notDirectory
  /-- A text is no settings document. -/
  | notSettings
  | directoryFile (path : String) (fault : FileFault)
  | settingsFile (path : String) (fault : FileFault)
deriving DecidableEq, Repr

def ConfigurationFault.message : ConfigurationFault → String
  | .settings fault => fault.message
  | .backend fault => fault.message
  | .unevenBatch circuits endpoints => s!"{circuits} circuits but {endpoints} endpoints"
  | .closedSession => "jobs must be submitted from within a Tokio runtime"
  | .notDirectory => "invalid endpoint directory"
  | .notSettings => "invalid settings"
  | .directoryFile path fault => s!"cannot read endpoint directory '{path}': {fault.message}"
  | .settingsFile path fault => s!"cannot read '{path}': {fault.message}"

/-- What is wrong with an answer. -/
inductive ResultFault where
  /-- It is no response document. -/
  | shape
  | noCounts
  | noTiming
  | key (key : String) (fault : KeyFault)
deriving DecidableEq, Repr

def ResultFault.message : ResultFault → String
  | .shape => "unexpected response shape"
  | .noCounts => "response carries neither an error marker nor counts"
  | .noTiming => "response carries counts but no timing"
  | .key spelled fault => s!"outcome key '{spelled}': {fault.message}"

inductive JobError where
  | circuit (e : CircuitError)
  | notParametric (circuit : String)
  | notSubmitted (job : String)
  | invalidParameters (e : CircuitError)
  /-- The exchange with an endpoint broke down. -/
  | transport (endpoint reason : String)
  /-- The endpoint answered with an error marker. -/
  | remote (endpoint reason : String)
  | invalidResult (fault : ResultFault)
  | configuration (fault : ConfigurationFault)
  | unknownEndpoint (id : String)
  /-- No error of a job but the end of the program: the numbers of an answer do not fit 64 bits. What is
  left behind then is seen by nobody. -/
  | stopped
deriving DecidableEq, Repr

namespace JobError

def message : JobError → String
  | .circuit e => e.message
  | .notParametric id => s!"Circuit '{id}' is not parametric"
  | .notSubmitted id => s!"Job {id} has not been submitted"
  | .invalidParameters e => s!"Invalid parameters: {e.message}"
  | .transport endpoint reason => s!"Transport failure at {endpoint}: {reason}"
  | .remote endpoint reason => s!"Remote computation failed on {endpoint}: {reason}"
  | .invalidResult fault => s!"Invalid result: {fault.message}"
  | .configuration fault => s!"Configuration error: {fault.message}"
  | .unknownEndpoint id => s!"Unknown endpoint: {id}"
  | .stopped => "attempt to add with overflow"

/-- Whether the cause lies at the other end. -/
def isRemote : JobError → Bool
  | .transport .. => true
  | .remote .. => true
  | _ => false

end JobError

end QuantumRelay
