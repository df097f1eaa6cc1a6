import QuantumRelay.Circuit.Snapshot
import QuantumRelay.Circuit.Validation
import QuantumRelay.Json.Printer
import QuantumRelay.Json.Reader
import QuantumRelay.Names
import QuantumRelay.Notice

/-!
# Circuits

A `Circuit` grows by registers and by instructions that have passed `Instruction.validate`; an
operation that fails gives an error and no circuit, so the old one stands. `Circuit.snapshot`
freezes it and `Circuit.ofSnapshot` builds it again, checking everything.
-/

namespace QuantumRelay

structure Circuit where
  id : String
  quantumRegisters : List Register := []
  classicalRegisters : List Register := []
  instructions : List Instruction := []
  numQubits : UInt32 := 0
  numClbits : UInt32 := 0
  isParametric : Bool := false
  hasClassicalRelay : Bool := false
  hasQuantumRelay : Bool := false
deriving BEq, Inhabited

namespace Circuit

def leadingRegister (name : String) (size : UInt32) : List Register :=
  if size = 0 then [] else [⟨name, Register.run 0 size⟩]

/-- A circuit with registers `q` and `c` of the given sizes. An empty id gives way to `generated`. -/
def ofSize (generated id : String) (numQubits numClbits : UInt32) : Circuit :=
  { id := if id.isEmpty then generated else id
    quantumRegisters := leadingRegister "q" numQubits
    classicalRegisters := leadingRegister "c" numClbits
    numQubits, numClbits }

def registers (c : Circuit) : RegisterKind → List Register
  | .quantum => c.quantumRegisters
  | .classical => c.classicalRegisters

def size (c : Circuit) : RegisterKind → UInt32
  | .quantum => c.numQubits
  | .classical => c.numClbits

def register? (c : Circuit) (kind : RegisterKind) (name : String) : Option Register :=
  (c.registers kind).find? (·.name == name)

def isDistributed (c : Circuit) : Bool := c.hasClassicalRelay || c.hasQuantumRelay

def parameters (c : Circuit) : List Float := Parameters.collect c.instructions

/-- The circuits that this one relays with, each once and in order. -/
def peers (c : Circuit) : List String :=
  Names.sorted (c.instructions.filterMap (·.peer))

/-! ### Growing -/

/-- How many numbers are larger. -/
def numbersLeft (number : Int32) : Nat := (Int32.maxValue.toInt - number.toInt).toNat

theorem numbersLeft_lt {number : Int32} (h : number ≠ Int32.maxValue) :
    numbersLeft (number + 1) < numbersLeft number := by
  have hne : number.toInt ≠ Int32.maxValue.toInt := fun heq => h (Int32.toInt_inj.1 heq)
  have hlt := Int32.toInt_lt number
  have hle := Int32.le_toInt number
  rw [Int32.toInt_maxValue] at hne
  rw [numbersLeft, numbersLeft, Int32.toInt_maxValue, Int32.toInt_add, Int32.toInt_one,
    Int.bmod_eq_of_le (by omega) (by omega)]
  omega

/-- Look for a register name that is not taken: `name` first, then `base_k`, from `number` on. Numbers are
32-bit integers, and are counted up before the name that has them is looked up. -/
def searchName (taken : List String) (base name : String) (number : Int32) :
    Except CircuitError String :=
  if taken.contains name then
    if number = Int32.maxValue then .error .stopped
    else searchName taken base s!"{base}_{number}" (number + 1)
  else .ok name
termination_by numbersLeft number
decreasing_by
  next hlast => exact numbersLeft_lt hlast

/-- A register name that is not taken: `base`, or `base_k` for the least free `k` from one on. -/
def freeName (taken : List String) (base : String) : Except CircuitError String :=
  searchName taken base base 1

/-- A circuit with one more register, and what there is to tell about it. -/
structure Extension where
  circuit : Circuit
  name : String
  notices : List Notice

/-- Append a register of `size` new indices. A name that is taken gets a number. -/
def addRegister (c : Circuit) (kind : RegisterKind) (base : String) (size : UInt32) :
    Except CircuitError Extension := do
  let name ← freeName ((c.registers kind).map (·.name)) base
  match Register.contiguous? name (c.size kind) size with
  | none => .error (.registerOverflow kind base size)
  | some r =>
    .ok {
      circuit := match kind with
        | .quantum =>
          { c with
            quantumRegisters := c.quantumRegisters ++ [r]
            numQubits := c.numQubits + size }
        | .classical =>
          { c with
            classicalRegisters := c.classicalRegisters ++ [r]
            numClbits := c.numClbits + size }
      name
      notices := if name = base then [] else [.registerRenamed kind base name] }

def addInstruction (c : Circuit) (i : Instruction) : Except CircuitError Circuit := do
  let s ← i.validate c.numQubits c.numClbits c.id
  let kind := s.relay.map (·.kind)
  pure { c with
    instructions := c.instructions ++ [i]
    isParametric := c.isParametric || i.isParametric
    hasClassicalRelay := c.hasClassicalRelay || kind == some .classical
    hasQuantumRelay := c.hasQuantumRelay || kind == some .quantum }

def addInstructions (c : Circuit) : List Instruction → Except CircuitError Circuit
  | [] => .ok c
  | i :: rest => do (← c.addInstruction i).addInstructions rest

def assignParameters (c : Circuit) (values : List Float) : Except CircuitError Circuit := do
  let instructions ← Parameters.bind c.id c.instructions values
  pure { c with instructions }

/-! ### Snapshots -/

def snapshot (c : Circuit) : Snapshot :=
  { id := c.id
    instructions := c.instructions
    numQubits := c.numQubits
    numClbits := c.numClbits
    quantumRegisters := c.quantumRegisters
    classicalRegisters := c.classicalRegisters
    isParametric := c.isParametric
    isDistributed := c.isDistributed }

/-- The first index of a register that is not the next one, or how many there are. -/
def countIndices (kind : RegisterKind) (register : String) (next : Nat) :
    List UInt32 → Except SnapshotFault Nat
  | [] => .ok next
  | index :: rest =>
    if index.toNat = next then countIndices kind register (next + 1) rest
    else .error (.misplaced kind register index next)

/-- Count the indices of registers that follow one another without a gap. -/
def countRegisters (kind : RegisterKind) (next : Nat) :
    List Register → Except SnapshotFault Nat
  | [] => .ok next
  | r :: rest => do countRegisters kind (← countIndices kind r.name next r.indices) rest

/-- Check that registers of one kind hold the indices below `total`, in order and under distinct
names. -/
def checkLayout (kind : RegisterKind) (registers : List Register) (total : UInt32) :
    Except SnapshotFault Unit := do
  let covered ← countRegisters kind 0 registers
  if covered ≠ total.toNat then .error (.coverage kind covered total)
  else
    match Names.firstRepeated? [] (registers.map (·.name)) with
    | some name => .error (.repeatedRegister kind name)
    | none => .ok ()

def checkSnapshot (s : Snapshot) : Except SnapshotFault Unit := do
  checkLayout .quantum s.quantumRegisters s.numQubits
  checkLayout .classical s.classicalRegisters s.numClbits
  if s.id.isEmpty then .error .emptyId else .ok ()

/-- Build the circuit of a snapshot. The two flags of the snapshot are not used. -/
def ofSnapshot (s : Snapshot) : Except CircuitError Circuit :=
  match checkSnapshot s with
  | .error fault => .error (.invalidSnapshot fault)
  | .ok () =>
    addInstructions
      { id := s.id
        quantumRegisters := s.quantumRegisters
        classicalRegisters := s.classicalRegisters
        numQubits := s.numQubits
        numClbits := s.numClbits } s.instructions

end Circuit

namespace Snapshot

/-- The snapshot of the circuit that this one describes: the same with its two flags set right. -/
def normalized (s : Snapshot) : Except CircuitError Snapshot := do
  pure (← Circuit.ofSnapshot s).snapshot

/-- The snapshot that a JSON text holds, checked and with its two flags set right. -/
def read (text : String) : Except CircuitError Snapshot :=
  match (Json.read? text).bind ofJson? with
  | some s => s.normalized
  | none => .error .unreadable

def text (s : Snapshot) : String := s.toJson.compact

end Snapshot

end QuantumRelay
