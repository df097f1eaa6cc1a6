import QuantumRelay.Complex
import QuantumRelay.Circuit.Catalog
import QuantumRelay.Json.Record

/-!
# Instructions

An `Instruction` is one step of a circuit, as it is built, stored and sent. Which names, counts and
indices make sense is not its business: `Instruction.validate` says so.
-/

namespace QuantumRelay

abbrev Matrix : Type := List (List (Complex Float))

structure Instruction where
  name : String
  qubits : List UInt32
  clbits : List UInt32 := []
  params : List Float := []
  matrix : Option Matrix := none
  circuits : List String := []
deriving BEq, Inhabited

namespace Instruction

/-- The relay end that an instruction is, by its name. -/
def relay (i : Instruction) : Option Relay := (Catalog.find? i.name).bind (·.relay)

/-- The circuit at the other end: the first one named. -/
def peer (i : Instruction) : Option String := i.circuits.head?

def isMeasure (i : Instruction) : Bool := i.name == "measure"

/-- Whether the parameters can be replaced. The entries of a matrix never can. -/
def isParametric (i : Instruction) : Bool := !i.params.isEmpty && i.matrix.isNone

/-! ### Documents -/

def entryToJson (z : Complex Float) : Json := .array [.float z.re, .float z.im]

def entryOfJson? (j : Json) : Option (Complex Float) :=
  (j.pair? Json.float? Json.float?).map fun (re, im) => ⟨re, im⟩

def matrixToJson (m : Matrix) : Json := .array (m.map fun row => .array (row.map entryToJson))

def matrixOfJson? : Json → Option Matrix := Json.items? (Json.items? entryOfJson?)

/-- An instruction as a document, without the fields that are empty. -/
def toJson (i : Instruction) : Json :=
  .object <|
    [("name", .text i.name), ("qubits", .array (i.qubits.map .ofWord32))] ++
    Json.fieldUnless i.clbits.isEmpty "clbits" (.array (i.clbits.map .ofWord32)) ++
    Json.fieldUnless i.params.isEmpty "params" (.array (i.params.map .float)) ++
    Json.fieldOf? "matrix" i.matrix matrixToJson ++
    Json.fieldUnless i.circuits.isEmpty "circuits" (.ofTexts i.circuits)

def ofJson? (j : Json) : Option Instruction := do
  let r ← j.record? .isOpen ["name", "qubits", "clbits", "params", "matrix", "circuits"]
  some { name := ← r.required "name" Json.text?
         qubits := ← r.required "qubits" (Json.items? Json.word32?)
         clbits := ← r.optional "clbits" [] (Json.items? Json.word32?)
         params := ← r.optional "params" [] (Json.items? Json.float?)
         matrix := ← r.optional "matrix" none (Json.nullable? matrixOfJson?)
         circuits := ← r.optional "circuits" [] (Json.items? Json.text?) }

end Instruction

end QuantumRelay
