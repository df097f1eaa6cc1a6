import QuantumRelay.Json.Record

/-!
# Registers

A circuit numbers its qubits, and its classical bits, from zero on. A register is a named run of
such numbers; the registers of one kind follow one another without a gap.
-/

namespace QuantumRelay

inductive RegisterKind where
  | quantum
  | classical
deriving DecidableEq, Repr

def RegisterKind.name : RegisterKind → String
  | .quantum => "quantum"
  | .classical => "classical"

structure Register where
  name : String
  indices : List UInt32
deriving DecidableEq, BEq, Inhabited

namespace Register

def run (start size : UInt32) : List UInt32 :=
  (List.range size.toNat).map fun k => start + UInt32.ofNat k

/-- The register over `size` indices from `start` on, unless they pass the largest index. -/
def contiguous? (name : String) (start size : UInt32) : Option Register :=
  if start.toNat + size.toNat < UInt32.size then some ⟨name, run start size⟩ else none

def size (r : Register) : Nat := r.indices.length

def isEmpty (r : Register) : Bool := r.indices.isEmpty

def shown (r : Register) : String := s!"{r.name}[{r.size}]"

def toJson (r : Register) : Json :=
  .object [("name", .text r.name), ("indices", .array (r.indices.map .ofWord32))]

def ofJson? (j : Json) : Option Register := do
  let r ← j.record? .isOpen ["name", "indices"]
  some { name := ← r.required "name" Json.text?
         indices := ← r.required "indices" (Json.items? Json.word32?) }

end Register

end QuantumRelay
