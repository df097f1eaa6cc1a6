import QuantumRelay.Circuit.Snapshot

/-!
# Backends

What an execution unit can run. `Backend.fault?` gives the first thing about a circuit that a
backend is not made for: its size, or an instruction.
-/

namespace QuantumRelay

structure Backend where
  name : String
  version : String := ""
  numQubits : UInt32
  description : String := ""
  simulator : Bool := true
  /-- The gates that it knows; none given means all. -/
  basisGates : List String := []
  couplingMap : Option (List (UInt32 × UInt32)) := none
  customInstructions : List String := []
  conditional : Bool := true
  memory : Bool := false
deriving DecidableEq, Repr, Inhabited

inductive BackendFault where
  | tooSmall (circuit : String) (needed : UInt32) (backend : String) (available : UInt32)
  | unsupported (backend gate circuit : String)
deriving DecidableEq, Repr

def BackendFault.message : BackendFault → String
  | .tooSmall circuit needed backend available =>
    s!"circuit '{circuit}' needs {needed} qubits but backend '{backend}' has {available}"
  | .unsupported backend gate circuit =>
    s!"backend '{backend}' does not support '{gate}' used in circuit '{circuit}'"

namespace Backend

/-- The backend of a simulator that computes with amplitudes. -/
def statevector (name : String) (numQubits : UInt32) : Backend :=
  { name, version := "0.3.0", numQubits, description := "ideal statevector simulator" }

def supports (b : Backend) (name : String) : Bool :=
  b.customInstructions.contains name ||
    match Catalog.find? name with
    | none => false
    | some s =>
      !(s.conditional && !b.conditional) &&
        (b.basisGates.isEmpty || b.basisGates.contains (Catalog.baseName name))

def fault? (b : Backend) (s : Snapshot) : Option BackendFault :=
  if b.numQubits < s.numQubits then some (.tooSmall s.id s.numQubits b.name b.numQubits)
  else (s.instructions.find? fun i => !b.supports i.name).map fun i =>
    .unsupported b.name i.name s.id

def fieldNames : List String :=
  ["name", "version", "n_qubits", "description", "simulator", "basis_gates", "coupling_map",
    "custom_instructions", "conditional", "memory"]

def toJson (b : Backend) : Json :=
  .object <|
    [("name", .text b.name), ("version", .text b.version), ("n_qubits", .ofWord32 b.numQubits),
      ("description", .text b.description), ("simulator", .bool b.simulator),
      ("basis_gates", .ofTexts b.basisGates)] ++
    Json.fieldOf? "coupling_map" b.couplingMap
      (fun pairs => .array (pairs.map fun (x, y) => .array [.ofWord32 x, .ofWord32 y])) ++
    [("custom_instructions", .ofTexts b.customInstructions), ("conditional", .bool b.conditional),
      ("memory", .bool b.memory)]

/-- A backend read from a document; no field but its own may be there. -/
def ofJson? (j : Json) : Option Backend := do
  let r ← j.record? .isClosed fieldNames
  some { name := ← r.required "name" Json.text?
         version := ← r.optional "version" "" Json.text?
         numQubits := ← r.required "n_qubits" Json.word32?
         description := ← r.optional "description" "" Json.text?
         simulator := ← r.optional "simulator" true Json.bool?
         basisGates := ← r.optional "basis_gates" [] (Json.items? Json.text?)
         couplingMap := ← r.optional "coupling_map" none
           (Json.nullable? (Json.items? (Json.pair? Json.word32? Json.word32?)))
         customInstructions := ← r.optional "custom_instructions" [] (Json.items? Json.text?)
         conditional := ← r.optional "conditional" true Json.bool?
         memory := ← r.optional "memory" false Json.bool? }

end Backend

end QuantumRelay
