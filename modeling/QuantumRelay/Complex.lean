/-!
# Complex numbers over any numbers

`Complex R` is a pair of numbers with the usual sum and product. It is used over doubles to compute
and over exact numbers to reason, so each operation is written out once, in one order of operations.
-/

namespace QuantumRelay

structure Complex (R : Type) where
  re : R
  im : R
deriving BEq, DecidableEq, Inhabited

namespace Complex

variable {R : Type}

instance [Zero R] : Zero (Complex R) := ⟨⟨0, 0⟩⟩
instance [Zero R] [One R] : One (Complex R) := ⟨⟨1, 0⟩⟩
instance [Add R] : Add (Complex R) := ⟨fun a b => ⟨a.re + b.re, a.im + b.im⟩⟩
instance [Sub R] : Sub (Complex R) := ⟨fun a b => ⟨a.re - b.re, a.im - b.im⟩⟩
instance [Neg R] : Neg (Complex R) := ⟨fun a => ⟨-a.re, -a.im⟩⟩
instance [Add R] [Sub R] [Mul R] : Mul (Complex R) :=
  ⟨fun a b => ⟨a.re * b.re - a.im * b.im, a.re * b.im + a.im * b.re⟩⟩

def i [Zero R] [One R] : Complex R := ⟨0, 1⟩

def scale [Mul R] (a : Complex R) (r : R) : Complex R := ⟨a.re * r, a.im * r⟩

def normSq [Add R] [Mul R] (a : Complex R) : R := a.re * a.re + a.im * a.im

end Complex

end QuantumRelay
