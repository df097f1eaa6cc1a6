import QuantumRelay.Circuit.Instruction
import QuantumRelay.SimulationError
import QuantumRelay.Statevector.Basic

/-!
# Operations on states

An `Operation` is a unitary gate on given qubits. `Operation.named` makes it of the name, qubits,
parameters and matrix of an instruction; a gate whose name starts with `c` and that is none of the
special ones is the gate after the `c` under one control.
-/

namespace QuantumRelay

inductive Operation (R : Type) where
  | flipIf (controls : List Nat) (target : Nat)
  | swapIf (controls : List Nat) (left right : Nat)
  | negateIf (qubits : List Nat)
  | hadamard (target : Nat)
  | iswap (left right : Nat)
  | applyIf (controls : List Nat) (target : Nat) (g : Gate (Complex R))
  | matrix (qubits : List Nat) (m : List (List (Complex R)))

namespace Operation

variable {R : Type} [Scalar R]

/-- Whether a matrix has one row for each basis state of some qubits, and rows of as many entries. -/
def hasSide {A : Type} (qubits : Nat) (m : List (List A)) : Bool :=
  let side := BasisIndex.count qubits
  m.length = side && m.all fun row => row.length = side

/-- Carry an operation out. A matrix of the wrong shape leaves the state as it is. -/
def apply (s : Statevector (Complex R)) : Operation R → Statevector (Complex R)
  | flipIf controls target => s.flipIf controls target
  | swapIf controls left right => s.swapIf controls left right
  | negateIf qubits => s.negateIf qubits
  | hadamard target => s.hadamard target
  | iswap left right => s.iswap left right
  | applyIf controls target g => s.applyIf controls target g
  | matrix qubits m => if hasSide qubits.length m then s.applyMatrix qubits m else s

/-- Whether an operation moves amplitudes of a state of some width to indices of that state only. A
qubit that the state lacks does no harm where it leaves no index to begin with. -/
def fits (width : Nat) : Operation R → Bool
  | flipIf controls target => target < width || controls.any (width ≤ ·)
  | swapIf controls left right => right < width || width ≤ left || controls.any (width ≤ ·)
  | negateIf _ => true
  | hadamard target => target < width
  | iswap left right => right < width || width ≤ left
  | applyIf controls target _ => target < width || controls.any (width ≤ ·)
  | matrix qubits _ => qubits.all (· < width)

/-- The joint rotation gate on two qubits with a name, the qubit named second being the more
significant one. -/
def jointRotation? (name : String) (angle : R) : Option (List (List (Complex R))) :=
  match name with
  | "rxx" => some (Gate.jointRotation angle .pauliX .pauliX)
  | "ryy" => some (Gate.jointRotation angle .pauliY .pauliY)
  | "rzz" => some (Gate.jointRotation angle .pauliZ .pauliZ)
  | "rzx" => some (Gate.jointRotation angle .pauliX .pauliZ)
  | _ => none

/-- The gate that a name stands for under a control, given by the name without its first `c`. -/
def controlledGate? (name : String) (params : List R) : Option (Gate (Complex R)) :=
  match name, params with
  | "cu", [theta, phi, lambda, gamma] =>
    some ((Gate.euler theta phi lambda).times (Complex.polar 1 gamma))
  | "cu", _ => none
  | _, _ => (Catalog.afterStem? "c" name).bind (Gate.named? · params)

/-- The operation of a gate that is not given by a matrix. -/
def plain? (name : String) (qubits : List Nat) (params : List R) : Option (Operation R) :=
  match name, qubits with
  | "x", [q] => some (flipIf [] q)
  | "h", [q] => some (hadamard q)
  | "cx", [c, t] => some (flipIf [c] t)
  | "cz", [c, t] => some (negateIf [c, t])
  | "swap", [a, b] => some (swapIf [] a b)
  | "iswap", [a, b] => some (iswap a b)
  | "ccx", [c, d, t] => some (flipIf [c, d] t)
  | "cswap", [c, a, b] => some (swapIf [c] a b)
  | "ccz", [c, d, t] => some (applyIf [c, d] t .pauliZ)
  | "ecr", [a, b] => some (matrix [a, b] Gate.crossResonance)
  | _, [q] => (Gate.named? name params).map (applyIf [] q)
  | _, [a, b] =>
    if ["rxx", "ryy", "rzz", "rzx"].contains name then
      match params with
      | [angle] => (jointRotation? name angle).map (matrix [a, b])
      | _ => none
    else (controlledGate? name params).map (applyIf [a] b)
  | _, _ => none

/-- The operation that a name, qubits, parameters and a matrix stand for. -/
def named (name : String) (qubits : List Nat) (params : List Float) (m : Option Matrix) :
    Except SimulationError (Operation R) :=
  if name = Catalog.unitaryName then
    match m with
    | none => .error (.unsupportedInstruction name)
    | some rows =>
      if hasSide qubits.length rows then
        .ok (matrix qubits (rows.map fun row => row.map .ofFloats))
      else .error (.invalidRequest (.matrixShape qubits.length))
  else
    match plain? name qubits (params.map Scalar.ofFloat) with
    | some operation => .ok operation
    | none => .error (.unsupportedInstruction name)

end Operation

end QuantumRelay
