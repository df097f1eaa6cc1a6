import QuantumRelay.Statevector.Scalar

/-!
# Matrices of gates

A `Gate` is the matrix of a gate on one qubit; `Gate.named?` gives those of the catalog. Gates on two
qubits that are no controlled gates are lists of rows, built from Kronecker products.
-/

namespace QuantumRelay

/-- A gate on one qubit: the amplitudes of zero and one become those of its two rows. -/
structure Gate (A : Type) where
  m00 : A
  m01 : A
  m10 : A
  m11 : A

namespace Gate

variable {A R : Type}

/-- The entry of a row and a column, told by whether they are the second ones. -/
def entry (g : Gate A) : Bool → Bool → A
  | false, false => g.m00
  | false, true => g.m01
  | true, false => g.m10
  | true, true => g.m11

def times [Mul A] (g : Gate A) (z : A) : Gate A := ⟨g.m00 * z, g.m01 * z, g.m10 * z, g.m11 * z⟩

variable [Scalar R]

/-! ### The Pauli matrices -/

def identity : Gate (Complex R) := ⟨1, 0, 0, 1⟩

def pauliX : Gate (Complex R) := ⟨0, 1, 1, 0⟩

/-- The inversion with the phases `i` and `-i`. -/
def pauliY : Gate (Complex R) := ⟨0, ⟨0, -1⟩, Complex.i, 0⟩

/-- The sign change of one. -/
def pauliZ : Gate (Complex R) := ⟨1, 0, 0, ⟨-1, 0⟩⟩

/-! ### Gates of the catalog -/

def hadamard : Gate (Complex R) :=
  let h := Complex.ofReal Scalar.rootHalf
  ⟨h, h, h, -h⟩

def phase (angle : R) : Gate (Complex R) := ⟨1, 0, 0, Complex.polar 1 angle⟩

/-- A square root of the inversion; the sign tells which one. -/
def rootX (sign : R) : Gate (Complex R) :=
  let same : Complex R := ⟨Scalar.half 1, Scalar.half 1 * sign⟩
  let other : Complex R := ⟨Scalar.half 1, -Scalar.half 1 * sign⟩
  ⟨same, other, other, same⟩

/-- The rotation by `angle` about the axis at `axis` between the first and the second one. -/
def rotation (angle axis : R) : Gate (Complex R) :=
  let cosine := Complex.ofReal (Scalar.cos (Scalar.half angle))
  let sine := Scalar.sin (Scalar.half angle)
  ⟨cosine, -Complex.i * Complex.polar sine (-axis), -Complex.i * Complex.polar sine axis, cosine⟩

/-- The rotation by `angle` about the third axis. -/
def rotationZ (angle : R) : Gate (Complex R) :=
  ⟨Complex.polar 1 (-Scalar.half angle), 0, 0, Complex.polar 1 (Scalar.half angle)⟩

def euler (theta phi lambda : R) : Gate (Complex R) :=
  let cosine := Scalar.cos (Scalar.half theta)
  let sine := Scalar.sin (Scalar.half theta)
  ⟨Complex.ofReal cosine, -Complex.polar sine lambda, Complex.polar sine phi,
    Complex.polar cosine (phi + lambda)⟩

/-- The gate on one qubit with a name and parameters. -/
def named? (name : String) (params : List R) : Option (Gate (Complex R)) :=
  let quarter : R := Scalar.half Scalar.pi
  let eighth : R := Scalar.half quarter
  match name, params with
  | "id", [] => some identity
  | "x", [] => some pauliX
  | "y", [] => some pauliY
  | "z", [] => some pauliZ
  | "h", [] => some hadamard
  | "s", [] => some (phase quarter)
  | "sdg", [] => some (phase (-quarter))
  | "t", [] => some (phase eighth)
  | "tdg", [] => some (phase (-eighth))
  | "sx", [] => some (rootX 1)
  | "sxdg", [] => some (rootX (-1))
  | "rx", [theta] => some (rotation theta 0)
  | "ry", [theta] => some (rotation theta quarter)
  | "rz", [theta] => some (rotationZ theta)
  | "p", [lambda] => some (phase lambda)
  | "u2", [phi, lambda] => some (euler quarter phi lambda)
  | "r", [theta, phi] => some (rotation theta phi)
  | "u", [theta, phi, lambda] => some (euler theta phi lambda)
  | "u3", [theta, phi, lambda] => some (euler theta phi lambda)
  | _, _ => none

/-! ### Two qubits -/

/-- The matrix with the entry `f row column`, four rows of four. -/
def square (f : Nat → Nat → A) : List (List A) :=
  (List.range 4).map fun row => (List.range 4).map (f row)

/-- An entry of the Kronecker product, `low` acting on the less significant bit. -/
def product [Mul A] (high low : Gate A) (row column : Nat) : A :=
  high.entry (row.testBit 1) (column.testBit 1) * low.entry (row.testBit 0) (column.testBit 0)

/-- The rotation by `angle` that two Pauli matrices generate together. -/
def jointRotation (angle : R) (high low : Gate (Complex R)) : List (List (Complex R)) :=
  let cosine := Scalar.cos (Scalar.half angle)
  let sine := Scalar.sin (Scalar.half angle)
  square fun row column =>
    Complex.ofReal (if row = column then cosine else 0) -
      Complex.i.scale sine * product high low row column

/-- The echoed cross-resonance gate. -/
def crossResonance : List (List (Complex R)) :=
  square fun row column =>
    Complex.scale (product identity pauliX row column - product pauliX pauliY row column)
      Scalar.rootHalf

end Gate

end QuantumRelay
