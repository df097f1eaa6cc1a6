import Mathlib
import QuantumRelay.Decimal.Basic
import QuantumRelay.Statevector.Scalar

/-!
# Numbers that compute exactly

An `ExactScalar` is a commutative ring to simulate with, so nothing is rounded. The real numbers are
one. The pairs over such numbers are a commutative ring as well, with the sum and the product that the
simulator uses.
-/

namespace QuantumRelay

/-- Numbers to simulate with that add and multiply exactly. -/
class ExactScalar (R : Type) extends CommRing R, Scalar R

/-- The real number that a finite double stands for. -/
noncomputable def realOfFloat (x : Float) : ℝ :=
  (if Binary.isNegative x then -1 else 1) *
    ((Binary.ofFloat x).mantissa * 2 ^ (Binary.ofFloat x).exponent)

open Classical in
noncomputable instance : ExactScalar ℝ where
  ofFloat := realOfFloat
  ofDraw k := k / 2 ^ 53
  half x := x / 2
  pi := Real.pi
  cos := Real.cos
  sin := Real.sin
  rootHalf := 1 / √2
  inverseRoot x := 1 / √x
  less a b := decide (a < b)

namespace Complex

variable {R : Type}

theorem ext {a b : Complex R} (hre : a.re = b.re) (him : a.im = b.im) : a = b := by
  cases a
  cases b
  simp_all

variable [CommRing R]

@[simp] theorem zero_re : (0 : Complex R).re = 0 := rfl
@[simp] theorem zero_im : (0 : Complex R).im = 0 := rfl
@[simp] theorem one_re : (1 : Complex R).re = 1 := rfl
@[simp] theorem one_im : (1 : Complex R).im = 0 := rfl
@[simp] theorem add_re (a b : Complex R) : (a + b).re = a.re + b.re := rfl
@[simp] theorem add_im (a b : Complex R) : (a + b).im = a.im + b.im := rfl
@[simp] theorem neg_re (a : Complex R) : (-a).re = -a.re := rfl
@[simp] theorem neg_im (a : Complex R) : (-a).im = -a.im := rfl
@[simp] theorem sub_re (a b : Complex R) : (a - b).re = a.re - b.re := rfl
@[simp] theorem sub_im (a b : Complex R) : (a - b).im = a.im - b.im := rfl
@[simp] theorem mul_re (a b : Complex R) : (a * b).re = a.re * b.re - a.im * b.im := rfl
@[simp] theorem mul_im (a b : Complex R) : (a * b).im = a.re * b.im + a.im * b.re := rfl

instance : CommRing (Complex R) where
  add_assoc a b c := ext (add_assoc ..) (add_assoc ..)
  zero_add a := ext (zero_add _) (zero_add _)
  add_zero a := ext (add_zero _) (add_zero _)
  add_comm a b := ext (add_comm ..) (add_comm ..)
  neg_add_cancel a := ext (neg_add_cancel _) (neg_add_cancel _)
  sub_eq_add_neg a b := ext (sub_eq_add_neg ..) (sub_eq_add_neg ..)
  nsmul := nsmulRec
  zsmul := zsmulRec
  mul_assoc a b c := by
    apply ext <;> simp <;> ring
  one_mul a := by
    apply ext <;> simp
  mul_one a := by
    apply ext <;> simp
  zero_mul a := by
    apply ext <;> simp
  mul_zero a := by
    apply ext <;> simp
  left_distrib a b c := by
    apply ext <;> simp <;> ring
  right_distrib a b c := by
    apply ext <;> simp <;> ring
  mul_comm a b := by
    apply ext <;> simp <;> ring

@[simp] theorem zero_scale (r : R) : (0 : Complex R).scale r = 0 :=
  ext (zero_mul r) (zero_mul r)

end Complex

end QuantumRelay
