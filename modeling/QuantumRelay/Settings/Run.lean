import QuantumRelay.Json.Record

/-!
# Run settings

How often and by which method a circuit is run. `RunConfig.fault?` tells settings that make no sense
from those that do; a document is refused only for what it cannot be read as.
-/

namespace QuantumRelay

inductive Method where
  | automatic
  | statevector
  | densityMatrix
  | matrixProductState
deriving DecidableEq, Repr

namespace Method

def name : Method → String
  | .automatic => "automatic"
  | .statevector => "statevector"
  | .densityMatrix => "density_matrix"
  | .matrixProductState => "matrix_product_state"

def choices : List (String × Method) :=
  [.automatic, .statevector, .densityMatrix, .matrixProductState].map fun m => (m.name, m)

end Method

inductive SettingsFault where
  | noShots
  | noThreads
  | noTimeout
deriving DecidableEq, Repr

def SettingsFault.message : SettingsFault → String
  | .noShots => "shots must be positive"
  | .noThreads => "max_parallel_threads must be positive"
  | .noTimeout => "timeouts must be positive"

structure RunConfig where
  shots : UInt32 := 1024
  method : Method := .automatic
  seed : Option UInt64 := none
  maxParallelThreads : Option UInt32 := none
  fusion : Bool := true
deriving DecidableEq, Repr, Inhabited

namespace RunConfig

def fault? (c : RunConfig) : Option SettingsFault :=
  if c.shots = 0 then some .noShots
  else if c.maxParallelThreads = some 0 then some .noThreads
  else none

def fieldNames : List String := ["shots", "method", "seed", "max_parallel_threads", "fusion"]

def toJson (c : RunConfig) : Json :=
  .object <|
    [("shots", .ofWord32 c.shots), ("method", .text c.method.name)] ++
    Json.fieldOf? "seed" c.seed .ofWord64 ++
    Json.fieldOf? "max_parallel_threads" c.maxParallelThreads .ofWord32 ++
    [("fusion", .bool c.fusion)]

/-- Run settings read from a document; every field may be missing, and no other may be there. Whether
an empty object may stand beside the name of a method depends on what the settings are part of. -/
def ofJson? (emptyIsNull : Bool) (j : Json) : Option RunConfig := do
  let r ← j.record? .isClosed fieldNames
  some { shots := ← r.optional "shots" 1024 Json.word32?
         method := ← r.optional "method" .automatic (Json.choice? Method.choices emptyIsNull)
         seed := ← r.optional "seed" none (Json.nullable? Json.word64?)
         maxParallelThreads :=
           ← r.optional "max_parallel_threads" none (Json.nullable? Json.word32?)
         fusion := ← r.optional "fusion" true Json.bool? }

end RunConfig

end QuantumRelay
