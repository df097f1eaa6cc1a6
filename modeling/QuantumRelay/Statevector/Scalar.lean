import QuantumRelay.Complex

/-!
# Numbers to simulate with

`Scalar R` lists what the simulator needs of real numbers. Doubles are the instance that it runs on;
laws of states are stated for numbers that compute exactly.
-/

namespace QuantumRelay

/-- Real numbers as far as a simulation needs them. -/
class Scalar (R : Type) extends Zero R, One R, Add R, Sub R, Mul R, Neg R where
  /-- The number that a finite double stands for. -/
  ofFloat : Float → R
  /-- A random draw `k` as the number `k / 2 ^ 53`. -/
  ofDraw : Nat → R
  half : R → R
  pi : R
  cos : R → R
  sin : R → R
  /-- One over the square root of two. -/
  rootHalf : R
  /-- One over the square root of a positive number. -/
  inverseRoot : R → R
  less : R → R → Bool

instance : Scalar Float where
  zero := 0
  one := 1
  ofFloat x := x
  ofDraw k := Float.ofNat k / 9007199254740992
  half x := x / 2
  pi := 3.141592653589793
  cos := Float.cos
  sin := Float.sin
  rootHalf := 0.7071067811865476
  inverseRoot x := 1 / Float.sqrt x
  less a b := a < b

namespace Complex

variable {R : Type} [Scalar R]

def ofReal (r : R) : Complex R := ⟨r, 0⟩

def polar (length angle : R) : Complex R :=
  ⟨length * Scalar.cos angle, length * Scalar.sin angle⟩

def ofFloats (z : Complex Float) : Complex R := ⟨Scalar.ofFloat z.re, Scalar.ofFloat z.im⟩

end Complex

end QuantumRelay
