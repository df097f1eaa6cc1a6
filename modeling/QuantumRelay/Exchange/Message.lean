import QuantumRelay.Circuit.Snapshot
import QuantumRelay.Json.Printer
import QuantumRelay.Json.Reader
import QuantumRelay.Settings.Run

/-!
# Messages and responses

A unit is sent `Message`s: a request to run a circuit, or new parameters for the circuit it has. It
answers with a `Response`: counts and a time, or an error marker.
-/

namespace QuantumRelay

inductive ExecType where
  /-- On its own and at once. -/
  | offloading
  /-- Together with the circuits that it relays with. -/
  | dynamic
deriving DecidableEq, Repr

namespace ExecType

def name : ExecType → String
  | .offloading => "offloading"
  | .dynamic => "dynamic"

def choices : List (String × ExecType) := [.offloading, .dynamic].map fun t => (t.name, t)

/-- Circuits that relay are run with their peers, others alone. -/
def ofSnapshot (s : Snapshot) : ExecType := if s.hasRelay then .dynamic else .offloading

end ExecType

structure RunRequest where
  id : String
  config : RunConfig
  instructions : List Instruction
  execType : ExecType
  numQubits : UInt32
  numClbits : UInt32
deriving BEq

namespace RunRequest

def ofSnapshot (s : Snapshot) (config : RunConfig) (execType : ExecType) : RunRequest :=
  { id := s.id, config, instructions := s.instructions, execType
    numQubits := s.numQubits, numClbits := s.numClbits }

/-- The circuits that it relays with, in instruction order. -/
def peers (r : RunRequest) : List String := r.instructions.filterMap (·.peer)

def fields (r : RunRequest) : List (String × Json) := [
  ("id", .text r.id),
  ("config", r.config.toJson),
  ("instructions", .array (r.instructions.map (·.toJson))),
  ("exec_type", .text r.execType.name),
  ("num_qubits", .ofWord32 r.numQubits),
  ("num_clbits", .ofWord32 r.numClbits)]

def ofJson? (j : Json) : Option RunRequest := do
  let r ← j.record? .isOpen
    ["id", "config", "instructions", "exec_type", "num_qubits", "num_clbits"]
  some { id := ← r.required "id" Json.text?
         config := ← r.required "config" (RunConfig.ofJson? true)
         instructions := ← r.required "instructions" (Json.items? Instruction.ofJson?)
         execType := ← r.required "exec_type" (Json.choice? ExecType.choices true)
         numQubits := ← r.required "num_qubits" Json.word32?
         numClbits := ← r.required "num_clbits" Json.word32? }

end RunRequest

structure ParameterUpdate where
  id : String
  params : List Float
deriving BEq

namespace ParameterUpdate

def fields (u : ParameterUpdate) : List (String × Json) :=
  [("id", .text u.id), ("params", .array (u.params.map .float))]

def ofJson? (j : Json) : Option ParameterUpdate := do
  let r ← j.record? .isOpen ["id", "params"]
  some { id := ← r.required "id" Json.text?
         params := ← r.required "params" (Json.items? Json.float?) }

end ParameterUpdate

inductive Message where
  | run (request : RunRequest)
  | update (u : ParameterUpdate)
deriving BEq

namespace Message

def circuit : Message → String
  | .run request => request.id
  | .update u => u.id

/-- A message as a document: its kind, then the fields of what it carries. -/
def toJson : Message → Json
  | .run request => .object (("kind", .text "run") :: request.fields)
  | .update u => .object (("kind", .text "update_parameters") :: u.fields)

def ofKind? (kind : String) (content : Json) : Option Message :=
  if kind = "run" then (RunRequest.ofJson? content).map .run
  else if kind = "update_parameters" then (ParameterUpdate.ofJson? content).map .update
  else none

/-- A message read from a document without unreadable parts: an object with one `kind`, or a list
that starts with the kind. -/
def ofJson? (j : Json) : Option Message :=
  if !j.readable then none
  else
    match j with
    | .object members =>
      match members.filter (·.1 == "kind") with
      | [(_, .text kind)] => ofKind? kind (.object (members.filter (·.1 != "kind")))
      | _ => none
    | .array (.text kind :: items) => ofKind? kind (.array items)
    | _ => none

end Message

structure Response where
  error : Option String := none
  /-- How often each packed key came out. -/
  counts : Option (KeyMap UInt64) := none
  /-- How many seconds it took. -/
  timeTaken : Option Float := none
deriving BEq

namespace Response

def ofCounts (counts : KeyMap UInt64) (timeTaken : Float) : Response :=
  { counts := some counts, timeTaken := some timeTaken }

def ofError (message : String) : Response := { error := some message }

/-- The document of a response whose time is finite. Any other time is `null` once it is printed. -/
def toJson (r : Response) : Json :=
  .object <|
    Json.fieldOf? "ERROR" r.error .text ++
    Json.fieldOf? "counts" r.counts (.ofKeyMap .ofWord64) ++
    Json.fieldOf? "time_taken" r.timeTaken .float

def ofJson? (j : Json) : Option Response := do
  let r ← j.record? .isOpen ["ERROR", "counts", "time_taken"]
  some { error := ← r.optional "ERROR" none (Json.nullable? Json.text?)
         counts := ← r.optional "counts" none (Json.nullable? (Json.keyed? Json.word64?))
         timeTaken := ← r.optional "time_taken" none (Json.nullable? Json.float?) }

end Response

end QuantumRelay
