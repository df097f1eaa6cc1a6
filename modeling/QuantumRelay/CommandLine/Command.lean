import QuantumRelay.Batch.Submission
import QuantumRelay.Cluster.Network
import QuantumRelay.CommandLine.Arguments
import QuantumRelay.CommandLine.Report
import QuantumRelay.Settings.Client

/-!
# Carrying commands out

`Invocation.carryOut` does what an invocation asks for. Files are read through a function that is
given to it, and remote units are reached over a network that is given to it, so that it can be run
and reasoned about without either. A `Conclusion` keeps the lines that were printed before a command
failed.
-/

namespace QuantumRelay

inductive BatchFault where
  | unreadable
  | empty
  | circuit (id : String) (e : CircuitError)
deriving DecidableEq, Repr

/-- Why a command fails. -/
inductive CommandError where
  | fileMissing (path : String)
  | fileUnreadable (path : String) (fault : FileFault)
  | batch (path : String) (fault : BatchFault)
  | settings (path : String) (e : JobError)
  | directory (path : String) (e : JobError)
  | noDirectory
  | unknownFormat (format : String)
  | tooFewEndpoints (circuits endpoints : Nat)
  | job (e : JobError)
deriving DecidableEq, Repr

/-- The wording of a command error. Where a document cannot be read at all, no more is said. -/
def CommandError.message : CommandError → String
  | .fileMissing path => s!"File not found: {path}"
  | .fileUnreadable path fault => s!"Failed to read file: {path}: {fault.message}"
  | .batch path .unreadable => s!"Invalid batch: {path}"
  | .batch path .empty => s!"Invalid batch: {path}: batch contains no circuits"
  | .batch path (.circuit id e) => s!"Invalid batch: {path}: circuit '{id}': {e.message}"
  | .settings path (.configuration .notSettings) => s!"Failed to load config: {path}"
  | .settings path e => s!"Failed to load config: {path}: {e.message}"
  | .directory path (.configuration .notDirectory) => s!"Failed to load directory: {path}"
  | .directory path e => s!"Failed to load directory: {path}: {e.message}"
  | .noDirectory => "No endpoint directory given. Pass --directory or set it in the config"
  | .unknownFormat format => s!"Unknown format: '{format}'. Available: table, json"
  | .tooFewEndpoints circuits endpoints =>
    s!"{circuits} circuits but only {endpoints} endpoints available; " ++
      "one endpoint runs one circuit"
  | .job e => e.message

/-- The exit code of a failed command. -/
def CommandError.code : CommandError → UInt32
  | .job .stopped => 101
  | _ => 1

structure Conclusion where
  lines : List String
  failure : Option CommandError := none

namespace Conclusion

/-- The end of a command that failed before it printed anything. -/
def fail (e : CommandError) : Conclusion := ⟨[], some e⟩

/-- The same after lines that were printed before. -/
def after (lines : List String) (c : Conclusion) : Conclusion := { c with lines := lines ++ c.lines }

/-- Go on with a value, or fail. -/
def ofExcept {α : Type} (next : α → Conclusion) : Except CommandError α → Conclusion
  | .ok a => next a
  | .error e => fail e

end Conclusion

namespace Batch

def snapshots? (j : Json) : Option (List Snapshot) :=
  match j with
  | .array items => items.mapM Snapshot.ofJson?
  | j => (Snapshot.ofJson? j).map ([·])

/-- Check snapshots in turn and set their flags right. -/
def normalized : List Snapshot → Except BatchFault (List Snapshot)
  | [] => .ok []
  | s :: rest =>
    match s.normalized with
    | .error e => .error (.circuit s.id e)
    | .ok t => (normalized rest).map (t :: ·)

def read (text : String) : Except BatchFault (List Snapshot) :=
  match ((Json.read? text).filter Json.readable).bind fun j => snapshots? j.lastWins with
  | none => .error .unreadable
  | some [] => .error .empty
  | some l => normalized l

end Batch

namespace Command

def batchOf (path : String) : Except FileFault String → Except CommandError (List Snapshot)
  | .error fault => .error (if fault.isAbsent then .fileMissing path else .fileUnreadable path fault)
  | .ok text => (Batch.read text).mapError (.batch path)

def settingsOf (path : String) : Except FileFault String → Except CommandError ClientConfig
  | .error fault => .error (.settings path (.configuration (.settingsFile path fault)))
  | .ok text => (ClientConfig.read text).mapError (.settings path)

def directoryOf (path : String) : Except FileFault String → Except CommandError Directory
  | .error fault => .error (.directory path (.configuration (.directoryFile path fault)))
  | .ok text => (Directory.read text).mapError (.directory path)

def rowsOf (d : Directory) : Option String → List (String × EndpointRecord)
  | some group => d.inGroup group
  | none => d.toList

def concludeResolve (path : String) (strict : Bool) (format : String) (batch : List Snapshot) :
    Conclusion :=
  match Resolution.ofBatch (if strict then .refuse else .report) batch with
  | .error e => .fail (.job (.circuit e))
  | .ok r =>
    match format with
    | "json" => ⟨Report.document (Report.resolutionToJson r), none⟩
    | "table" => ⟨Report.resolution path r, none⟩
    | other => .fail (.unknownFormat other)

/-- Show results in turn. What was shown before the program stops stays shown. -/
def showResults : List RunResult → Conclusion
  | [] => ⟨[], none⟩
  | r :: rest =>
    match Report.result r with
    | .error .overflow => .fail (.job .stopped)
    | .ok lines => (showResults rest).after lines

/-- Submit a batch to endpoints, wait for all results and show them. -/
def concludeRun {ω : Type} [Network ω] (format : String) (config : RunConfig)
    (batch : List Snapshot) (endpoints : List Endpoint) (network : ω) : Conclusion :=
  let (submitted, session) := SubmittedBatch.submit batch endpoints config { network }
  match submitted with
  | .error e => .fail (.job e)
  | .ok b =>
    match (Job.gather session b.jobs).1 with
    | .error e => .fail (.job e)
    | .ok results =>
      if format = "json" then
        ⟨Report.document (.array (results.map (·.toJson))), none⟩
      else showResults results

/-- Run a batch on rows of a directory, one unit per circuit. -/
def concludeRemoteRun {ω : Type} [Network ω] (format : String) (config : RunConfig)
    (batch : List Snapshot) (rows : List (String × EndpointRecord))
    (connect : List Endpoint → ω) : Conclusion :=
  if rows.length < batch.length then .fail (.tooFewEndpoints batch.length rows.length)
  else
    let endpoints := Directory.endpoints (rows.take batch.length)
    concludeRun format config batch endpoints (connect endpoints)

/-- Settings with what the arguments say instead. -/
def overridden (c : RunConfig) (shots : Option UInt32) (seed : Option UInt64)
    (method : Option Method) : RunConfig :=
  { c with
    shots := shots.getD c.shots
    seed := seed.or c.seed
    method := method.getD c.method }

/-- What a run prints before it starts. -/
def runHeader (format path : String) (circuits : Nat) (config : RunConfig) : List String :=
  if format = "table" then
    [s!"→ Running {circuits} circuits from {path} ({config.shots} shots)"]
  else []

variable {m : Type → Type} [Monad m] {ω : Type} [Network ω]

/-- Read a file and go on with what it holds. -/
def withFile {α : Type} (readFile : String → m (Except FileFault String)) (path : String)
    (decode : String → Except FileFault String → Except CommandError α)
    (next : α → m Conclusion) : m Conclusion := do
  match decode path (← readFile path) with
  | .error e => pure (.fail e)
  | .ok a => next a

/-- Read the settings file, if there is one. -/
def withSettings (readFile : String → m (Except FileFault String)) (path : Option String)
    (next : ClientConfig → m Conclusion) : m Conclusion :=
  match path with
  | none => next {}
  | some path => withFile readFile path settingsOf next

/-- Read the directory that the arguments or else the settings name. -/
def withDirectory (readFile : String → m (Except FileFault String)) (path : Option String)
    (settings : ClientConfig) (next : String → Directory → m Conclusion) : m Conclusion :=
  match path.or settings.directory with
  | none => pure (.fail .noDirectory)
  | some path => withFile readFile path directoryOf (next path)

end Command

namespace Invocation

open Command

/-- Carry a command out. Runs without a seed draw from `entropy`. -/
def carryOut {m : Type → Type} [Monad m] {ω : Type} [Network ω]
    (readFile : String → m (Except FileFault String)) (connect : List Endpoint → ω)
    (entropy : UInt64) (i : Invocation) : m Conclusion :=
  match i.command with
  | .version => pure ⟨Report.about, none⟩
  | .endpoints directory group =>
    withSettings readFile i.config fun settings =>
      withDirectory readFile directory settings fun path d =>
        pure ⟨Report.endpoints path (rowsOf d group), none⟩
  | .resolve input strict format =>
    withFile readFile input batchOf fun batch =>
      pure (concludeResolve input strict format batch)
  | .run input target shots seed method format =>
    if format ≠ "table" && format ≠ "json" then pure (.fail (.unknownFormat format))
    else
      withSettings readFile i.config fun settings =>
        let config := overridden settings.run shots seed method
        match config.fault? with
        | some fault => pure (.fail (.job (.configuration (.settings fault))))
        | none =>
          withFile readFile input batchOf fun batch => do
            let conclusion ← match target with
              | .localCluster =>
                let cluster : Cluster := { nextSeed := entropy }
                pure (concludeRun format config batch (cluster.endpoints batch.length) cluster)
              | .directory path group =>
                withDirectory readFile path settings fun _ d =>
                  pure (concludeRemoteRun format config batch (rowsOf d group) connect)
            pure (conclusion.after (runHeader format input batch.length config))

end Invocation

end QuantumRelay
